import ProductivityApp.Firestore.ObjectValue

/-!
# What a patch changes

The paths of a mask may lie below one another, and setting a path replaces whatever stands in its
way. After a patch, every path the mask covers holds what the patch holds there, whatever the order
the mask was gone through, and every path apart from the mask holds what it held. The mask of all
leaves of an object rebuilds the object from nothing.
-/

namespace ProductivityApp.Firestore

/-- Neither path leads through the place of the other. -/
def Apart (p q : FieldPath) : Prop := ¬p <+: q ∧ ¬q <+: p

theorem apart_cons {a b : String} {p q : FieldPath} :
    Apart (a :: p) (b :: q) ↔ a ≠ b ∨ Apart p q := by
  simp only [Apart, List.cons_prefix_cons]
  by_cases h : a = b
  · simp [h]
  · simp [h, Ne.symm h]

theorem Apart.ne_nil {p q : FieldPath} (h : Apart p q) : q ≠ [] := by
  rintro rfl
  exact h.2 List.nil_prefix

theorem apart_or_prefix (p q : FieldPath) : Apart p q ∨ p <+: q ∨ q <+: p := by
  unfold Apart
  tauto

theorem FieldValue.get_append (value : FieldValue) (p q : FieldPath) :
    value.get (p ++ q) = (value.get p).bind fun found => found.get q := by
  induction p generalizing value with
  | nil => rfl
  | cons name p ih =>
      cases value with
      | object entries =>
          simp only [List.cons_append, get]
          cases entries.lookup name with
          | none => rfl
          | some found => exact ih found
      | _ => rfl

namespace ObjectValue

variable {object value : ObjectValue} {name : String} {path rest : FieldPath} {v : FieldValue}

theorem get_cons (object : ObjectValue) (name : String) (path : FieldPath) :
    get object (name :: path) = (object.lookup name).bind fun found => found.get path := rfl

theorem get_append (object : ObjectValue) (p q : FieldPath) :
    get object (p ++ q) = (get object p).bind fun found => found.get q :=
  (FieldValue.object object).get_append p q

theorem get_child (h : path ≠ []) : get (child object name) path = get object (name :: path) := by
  obtain ⟨next, path, rfl⟩ := List.exists_cons_of_ne_nil h
  rw [get_cons object, child]
  split
  · rename_i entries hlookup
    rw [hlookup]
    rfl
  · rename_i hnot
    cases hlookup : object.lookup name with
    | none => rfl
    | some found =>
        cases found with
        | object entries => exact absurd hlookup (hnot entries)
        | _ => rfl

/-! ### Setting and deleting -/

theorem get_set_append (object : ObjectValue) (h : path ≠ []) (v : FieldValue) (rest : FieldPath) :
    get (set object path v) (path ++ rest) = v.get rest := by
  induction path generalizing object with
  | nil => exact absurd rfl h
  | cons name path ih =>
      cases path with
      | nil => simp [set, get_cons]
      | cons next path =>
          rw [set, List.cons_append, get_cons, Entries.lookup_insert_self]
          exact ih (child object name) (List.cons_ne_nil _ _)

theorem get_set_of_apart (object : ObjectValue) {p q : FieldPath} (h : Apart p q) (v : FieldValue) :
    get (set object p v) q = get object q := by
  induction p generalizing object q with
  | nil => exact absurd List.nil_prefix h.1
  | cons name p ih =>
      cases q with
      | nil => exact absurd List.nil_prefix h.2
      | cons name' q =>
          by_cases hname : name' = name
          · subst hname
            obtain hne | h := apart_cons.mp h
            · exact absurd rfl hne
            · cases p with
              | nil => exact absurd List.nil_prefix h.1
              | cons next p =>
                  rw [set, get_cons, Entries.lookup_insert_self, ← get_child h.ne_nil]
                  exact ih (child object name') h
          · cases p with
            | nil => rw [set, get_cons, Entries.lookup_insert_of_ne hname, get_cons]
            | cons next p => rw [set, get_cons, Entries.lookup_insert_of_ne hname, get_cons]

theorem delete_cons_object {next : String} {entries : ObjectValue}
    (h : object.lookup name = some (.object entries)) :
    delete object (name :: next :: path)
      = Entries.insert name (.object (delete entries (next :: path))) object := by
  rw [delete, h]

theorem delete_cons_of_not_object {next : String}
    (h : ∀ entries, object.lookup name ≠ some (.object entries)) :
    delete object (name :: next :: path) = object := by
  rw [delete]
  split
  · rename_i entries hlookup
    exact absurd hlookup (h entries)
  · rfl

theorem get_delete_append (object : ObjectValue) (h : path ≠ []) (rest : FieldPath) :
    get (delete object path) (path ++ rest) = none := by
  induction path generalizing object with
  | nil => exact absurd rfl h
  | cons name path ih =>
      cases path with
      | nil => simp [delete, get_cons]
      | cons next path =>
          by_cases hobject : ∃ entries, object.lookup name = some (.object entries)
          · obtain ⟨entries, hlookup⟩ := hobject
            rw [delete_cons_object hlookup, List.cons_append, get_cons, Entries.lookup_insert_self]
            exact ih entries (List.cons_ne_nil _ _)
          · have hnot : ∀ entries, object.lookup name ≠ some (.object entries) :=
              fun entries hlookup => hobject ⟨entries, hlookup⟩
            rw [delete_cons_of_not_object hnot, List.cons_append, get_cons]
            cases hlookup : object.lookup name with
            | none => rfl
            | some found =>
                cases found with
                | object entries => exact absurd hlookup (hnot entries)
                | _ => rfl

theorem get_delete_of_apart (object : ObjectValue) {p q : FieldPath} (h : Apart p q) :
    get (delete object p) q = get object q := by
  induction p generalizing object q with
  | nil => rfl
  | cons name p ih =>
      cases q with
      | nil => exact absurd List.nil_prefix h.2
      | cons name' q =>
          cases p with
          | nil =>
              have hname : name' ≠ name := by
                rintro rfl
                exact h.1 (List.cons_prefix_cons.mpr ⟨rfl, List.nil_prefix⟩)
              rw [delete, get_cons, Entries.lookup_erase_of_ne hname, get_cons]
          | cons next p =>
              by_cases hobject : ∃ entries, object.lookup name = some (.object entries)
              · obtain ⟨entries, hlookup⟩ := hobject
                rw [delete_cons_object hlookup, get_cons]
                by_cases hname : name' = name
                · subst hname
                  obtain hne | h := apart_cons.mp h
                  · exact absurd rfl hne
                  · rw [Entries.lookup_insert_self, get_cons, hlookup]
                    exact ih entries h
                · rw [Entries.lookup_insert_of_ne hname, get_cons]
              · rw [delete_cons_of_not_object fun entries hlookup => hobject ⟨entries, hlookup⟩]

/-! ### Names in order -/

theorem allSorted_iff {entries : ObjectValue} :
    AllSorted entries ↔ ∀ entry ∈ entries, entry.2.Sorted := by
  induction entries with
  | nil => exact iff_of_true trivial fun _ hmem => absurd hmem List.not_mem_nil
  | cons entry entries ih =>
      rw [List.forall_mem_cons, ← ih]
      rfl

theorem sorted_object_iff :
    (FieldValue.object object).Sorted
      ↔ Entries.Sorted object ∧ ∀ entry ∈ object, entry.2.Sorted := by
  rw [← allSorted_iff]
  rfl

theorem sorted_empty : (FieldValue.object []).Sorted := sorted_object_iff.mpr ⟨.nil, by simp⟩

theorem sorted_of_lookup (h : (FieldValue.object object).Sorted)
    (hlookup : object.lookup name = some v) : v.Sorted :=
  (sorted_object_iff.mp h).2 _ (Entries.mem_of_lookup hlookup)

theorem sorted_insert (h : (FieldValue.object object).Sorted) (hv : v.Sorted) :
    (FieldValue.object (Entries.insert name v object)).Sorted := by
  obtain ⟨hsorted, hall⟩ := sorted_object_iff.mp h
  refine sorted_object_iff.mpr ⟨hsorted.insert, fun entry hmem => ?_⟩
  obtain rfl | hmem := Entries.mem_insert hmem
  · exact hv
  · exact hall entry hmem

theorem sorted_child (h : (FieldValue.object object).Sorted) (name : String) :
    (FieldValue.object (child object name)).Sorted := by
  rw [child]
  split
  · rename_i entries hlookup
    exact sorted_of_lookup h hlookup
  · exact sorted_empty

theorem sorted_set (h : (FieldValue.object object).Sorted) (path : FieldPath) (hv : v.Sorted) :
    (FieldValue.object (set object path v)).Sorted := by
  induction path generalizing object with
  | nil => exact h
  | cons name path ih =>
      cases path with
      | nil => exact sorted_insert h hv
      | cons next path => exact sorted_insert h (ih (sorted_child h name))

theorem sorted_delete (h : (FieldValue.object object).Sorted) (path : FieldPath) :
    (FieldValue.object (delete object path)).Sorted := by
  induction path generalizing object with
  | nil => exact h
  | cons name path ih =>
      cases path with
      | nil =>
          obtain ⟨hsorted, hall⟩ := sorted_object_iff.mp h
          exact sorted_object_iff.mpr
            ⟨hsorted.erase, fun entry hmem => hall entry (List.mem_of_mem_filter hmem)⟩
      | cons next path =>
          by_cases hobject : ∃ entries, object.lookup name = some (.object entries)
          · obtain ⟨entries, hlookup⟩ := hobject
            rw [delete_cons_object hlookup]
            exact sorted_insert h (ih (sorted_of_lookup h hlookup))
          · rw [delete_cons_of_not_object fun entries hlookup => hobject ⟨entries, hlookup⟩]
            exact h

theorem sorted_get (h : (FieldValue.object object).Sorted) (hget : get object path = some v) :
    v.Sorted := by
  induction path generalizing object with
  | nil =>
      cases hget
      exact h
  | cons name path ih =>
      rw [get_cons] at hget
      obtain ⟨found, hlookup, hget⟩ := Option.bind_eq_some_iff.mp hget
      have hfound := sorted_of_lookup h hlookup
      cases found with
      | object entries => exact ih hfound hget
      | _ =>
          cases path with
          | nil =>
              cases hget
              exact hfound
          | cons next path => cases hget

theorem set_eq_self (h : (FieldValue.object object).Sorted) (hpath : path ≠ [])
    (hget : get object path = some v) : set object path v = object := by
  induction path generalizing object with
  | nil => exact absurd rfl hpath
  | cons name path ih =>
      have hsorted := (sorted_object_iff.mp h).1
      rw [get_cons] at hget
      obtain ⟨found, hlookup, hget⟩ := Option.bind_eq_some_iff.mp hget
      cases path with
      | nil =>
          cases hget
          exact hsorted.insert_eq_self hlookup
      | cons next path =>
          cases found with
          | object entries =>
              have hchild : child object name = entries := by rw [child, hlookup]
              rw [set, hchild, ih (sorted_of_lookup h hlookup) (List.cons_ne_nil _ _) hget]
              exact hsorted.insert_eq_self hlookup
          | _ => cases hget

theorem delete_eq_self (h : (FieldValue.object object).Sorted) (hget : get object path = none) :
    delete object path = object := by
  induction path generalizing object with
  | nil => rfl
  | cons name path ih =>
      have hsorted := (sorted_object_iff.mp h).1
      rw [get_cons] at hget
      cases path with
      | nil =>
          refine hsorted.erase_eq_self ?_
          cases hlookup : object.lookup name with
          | none => rfl
          | some found => simp [hlookup, FieldValue.get] at hget
      | cons next path =>
          by_cases hobject : ∃ entries, object.lookup name = some (.object entries)
          · obtain ⟨entries, hlookup⟩ := hobject
            rw [hlookup] at hget
            rw [delete_cons_object hlookup, ih (sorted_of_lookup h hlookup) hget]
            exact hsorted.insert_eq_self hlookup
          · exact delete_cons_of_not_object fun entries hlookup => hobject ⟨entries, hlookup⟩

/-! ### Patches -/

theorem sorted_patchField (hvalue : (FieldValue.object value).Sorted)
    (hobject : (FieldValue.object object).Sorted) (path : FieldPath) :
    (FieldValue.object (patchField value object path)).Sorted := by
  unfold patchField
  split
  · exact hobject
  · split
    · exact sorted_delete hobject path
    · rename_i v hget
      exact sorted_set hobject path (sorted_get hvalue hget)

/-- A path of the mask is set to what the patch holds, and so is every path below it. -/
theorem get_patchField_append (hpath : path ≠ []) (rest : FieldPath) :
    get (patchField value object path) (path ++ rest) = get value (path ++ rest) := by
  rw [patchField, if_neg (by simpa using hpath), get_append value]
  split
  · rename_i hget
    rw [hget]
    exact get_delete_append object hpath rest
  · rename_i v hget
    rw [hget]
    exact get_set_append object hpath v rest

theorem get_patchField_of_apart {q : FieldPath} (h : path = [] ∨ Apart path q) :
    get (patchField value object path) q = get object q := by
  obtain rfl | h := h
  · rfl
  · unfold patchField
    split
    · rfl
    · split
      · exact get_delete_of_apart object h
      · exact get_set_of_apart object h _

/-- Where the object already agrees with the patch, above a path of the mask, that path changes
nothing. -/
theorem patchField_eq_self (hobject : (FieldValue.object object).Sorted) {q : FieldPath}
    (habove : q <+: path) (hq : get object q = get value q) :
    patchField value object path = object := by
  obtain ⟨rest, rfl⟩ := habove
  have hget : get object (q ++ rest) = get value (q ++ rest) := by
    rw [get_append, get_append, hq]
  unfold patchField
  split
  · rfl
  · rename_i hpath
    split
    · rename_i hnone
      exact delete_eq_self hobject (hget.trans hnone)
    · rename_i v hsome
      exact set_eq_self hobject (by simpa using hpath) (hget.trans hsome)

theorem sorted_patchObject (hvalue : (FieldValue.object value).Sorted) (mask : FieldMask)
    (hobject : (FieldValue.object object).Sorted) :
    (FieldValue.object (patchObject value mask object)).Sorted := by
  induction mask generalizing object with
  | nil => exact hobject
  | cons path mask ih => exact ih (sorted_patchField hvalue hobject path)

/-- Once a path agrees with the patch, it goes on agreeing. -/
theorem get_patchObject_of_agree (hvalue : (FieldValue.object value).Sorted) (mask : FieldMask)
    (hobject : (FieldValue.object object).Sorted) {q : FieldPath}
    (hq : get object q = get value q) : get (patchObject value mask object) q = get value q := by
  induction mask generalizing object with
  | nil => exact hq
  | cons path mask ih =>
      refine ih (sorted_patchField hvalue hobject path) ?_
      obtain happart | ⟨rest, rfl⟩ | habove := apart_or_prefix path q
      · exact (get_patchField_of_apart (Or.inr happart)).trans hq
      · by_cases hpath : path = []
        · subst hpath
          exact hq
        · exact get_patchField_append hpath rest
      · rw [patchField_eq_self hobject habove hq, hq]

theorem get_patchObject_of_covered (hvalue : (FieldValue.object value).Sorted) (mask : FieldMask)
    (hobject : (FieldValue.object object).Sorted) {q : FieldPath}
    (h : ∃ path ∈ mask, path ≠ [] ∧ path <+: q) :
    get (patchObject value mask object) q = get value q := by
  induction mask generalizing object with
  | nil =>
      obtain ⟨path, hmem, -⟩ := h
      cases hmem
  | cons path mask ih =>
      have hnext := sorted_patchField hvalue hobject path
      obtain ⟨covering, hmem, hne, rest, rfl⟩ := h
      obtain rfl | hmem := List.mem_cons.mp hmem
      · exact get_patchObject_of_agree hvalue mask hnext (get_patchField_append hne rest)
      · exact ih hnext ⟨covering, hmem, hne, rest, rfl⟩

theorem get_patchObject_of_apart (mask : FieldMask) {q : FieldPath}
    (h : ∀ path ∈ mask, path = [] ∨ Apart path q) :
    get (patchObject value mask object) q = get object q := by
  induction mask generalizing object with
  | nil => rfl
  | cons path mask ih =>
      obtain ⟨hpath, hmask⟩ := List.forall_mem_cons.mp h
      calc get (patchObject value (path :: mask) object) q
          = get (patchField value object path) q := ih hmask
        _ = get object q := get_patchField_of_apart hpath

/-- **What a patch does.** A path that the mask covers holds what the patch holds there, and a path
that is apart from all of the mask holds what it held. Objects stay in the order of their names. -/
theorem get_patchObject (value : ObjectValue) (mask : FieldMask) (object : ObjectValue)
    (hvalue : (FieldValue.object value).Sorted) (hobject : (FieldValue.object object).Sorted) :
    (FieldValue.object (patchObject value mask object)).Sorted
      ∧ ∀ q,
        ((∃ path ∈ mask, path ≠ [] ∧ path <+: q) →
          get (patchObject value mask object) q = get value q)
        ∧ ((∀ path ∈ mask, path = [] ∨ Apart path q) →
          get (patchObject value mask object) q = get object q) :=
  ⟨sorted_patchObject hvalue mask hobject,
    fun _ => ⟨get_patchObject_of_covered hvalue mask hobject, get_patchObject_of_apart mask⟩⟩

/-- A number is in the way of an object. -/
theorem get_patchObject_nested :
    get (patchObject [("a", .object [("b", .boolean true)])] [["a", "b"]] [("a", .integer 1)])
        ["a", "b"] = get [("a", .object [("b", .boolean true)])] ["a", "b"] :=
  ((get_patchObject [("a", .object [("b", .boolean true)])] [["a", "b"]] [("a", .integer 1)]
    (by simp [Entries.Sorted, FieldValue.Sorted, AllSorted])
    (by simp [Entries.Sorted, FieldValue.Sorted, AllSorted])).2 ["a", "b"]).1
    ⟨["a", "b"], by simp, by simp, List.prefix_rfl⟩

/-! ### The mask of all leaves -/

theorem patchObject_append (value : ObjectValue) (mask more : FieldMask) (object : ObjectValue) :
    patchObject value (mask ++ more) object
      = patchObject value more (patchObject value mask object) :=
  List.foldl_append

/-- The fields of a mask are apart from the empty path, and each holds something. -/
def Covered (value : ObjectValue) (mask : FieldMask) : Prop :=
  ∀ path ∈ mask, path ≠ [] ∧ (get value path).isSome

theorem patchObject_map_cons {entries : ObjectValue}
    (hlookup : value.lookup name = some (.object entries)) {mask : FieldMask} (hmask : mask ≠ [])
    (hcovered : Covered entries mask) (object : ObjectValue) :
    patchObject value (mask.map (name :: ·)) object
      = Entries.insert name (.object (patchObject entries mask (child object name))) object := by
  have hstep (object : ObjectValue) {path : FieldPath} (hpath : path ≠ [])
      (hsome : (get entries path).isSome) :
      patchField value object (name :: path)
        = Entries.insert name (.object (patchField entries (child object name) path)) object := by
    obtain ⟨v, hget⟩ := Option.isSome_iff_exists.mp hsome
    obtain ⟨next, path, rfl⟩ := List.exists_cons_of_ne_nil hpath
    have hget' : get value (name :: next :: path) = some v := by
      rw [get_cons, hlookup]
      exact hget
    rw [patchField, if_neg (by simp), hget', patchField, if_neg (by simp), hget]
    rfl
  have hchild (object inner : ObjectValue) :
      child (Entries.insert name (.object inner) object) name = inner := by
    rw [child, Entries.lookup_insert_self]
  induction mask generalizing object with
  | nil => exact absurd rfl hmask
  | cons path mask ih =>
      obtain ⟨⟨hpath, hsome⟩, hrest⟩ := List.forall_mem_cons.mp hcovered
      rw [List.map_cons, patchObject, List.foldl_cons, hstep object hpath hsome]
      cases mask with
      | nil => rfl
      | cons next mask =>
          have h := ih (List.cons_ne_nil _ _) hrest
            (Entries.insert name (.object (patchField entries (child object name) path)) object)
          rw [hchild, Entries.insert_insert] at h
          exact h

mutual

theorem isSome_get_of_leaves (v : FieldValue) (hv : v.Sorted) {path : FieldPath}
    (hpath : path ∈ v.leaves) : (v.get path).isSome := by
  cases v with
  | object entries =>
      obtain ⟨hsorted, hall⟩ := hv
      rw [FieldValue.leaves] at hpath
      split at hpath
      · cases List.mem_singleton.mp hpath
        rfl
      · rename_i first more hmask
        rw [← hmask] at hpath
        have hlookup : ∀ entry ∈ entries, entries.lookup entry.1 = some entry.2 :=
          fun entry hmem => hsorted.lookup_of_mem hmem
        exact (covered_toFieldMask entries hall hlookup path hpath).2
  | _ =>
      cases List.mem_singleton.mp hpath
      rfl
termination_by structural v

theorem covered_toFieldMask {value : ObjectValue} (entries : ObjectValue) (hall : AllSorted entries)
    (hlookup : ∀ entry ∈ entries, value.lookup entry.1 = some entry.2) :
    Covered value (toFieldMask entries) := by
  cases entries with
  | nil => exact fun path hmem => absurd hmem List.not_mem_nil
  | cons entry entries =>
      obtain ⟨name, v⟩ := entry
      obtain ⟨hfirst, hlookup⟩ := List.forall_mem_cons.mp hlookup
      intro path hmem
      rw [toFieldMask] at hmem
      obtain hmem | hmem := List.mem_append.mp hmem
      · obtain ⟨inner, hinner, rfl⟩ := List.mem_map.mp hmem
        refine ⟨List.cons_ne_nil _ _, ?_⟩
        rw [get_cons, hfirst]
        exact isSome_get_of_leaves v hall.1 hinner
      · exact covered_toFieldMask entries hall.2 hlookup path hmem
termination_by structural entries

end

mutual

/-- Patching the leaves of a value below a name puts the value there. -/
theorem patchObject_leaves (v : FieldValue) (hv : v.Sorted) {value object : ObjectValue}
    {name : String} (hvalue : value.lookup name = some v) (hobject : object.lookup name = none) :
    patchObject value (v.leaves.map (name :: ·)) object = Entries.insert name v object := by
  have hleaf (hleaves : v.leaves = [[]]) :
      patchObject value (v.leaves.map (name :: ·)) object = Entries.insert name v object := by
    rw [hleaves, List.map_singleton, patchObject, List.foldl_cons, List.foldl_nil, patchField,
      if_neg (by simp), get_cons, hvalue]
    rfl
  cases v with
  | object entries =>
      cases hmask : toFieldMask entries with
      | nil => exact hleaf (by rw [FieldValue.leaves, hmask])
      | cons first more =>
          obtain ⟨hsorted, hall⟩ := hv
          have hlookup : ∀ entry ∈ entries, entries.lookup entry.1 = some entry.2 :=
            fun entry hmem => hsorted.lookup_of_mem hmem
          have hleaves : (FieldValue.object entries).leaves = toFieldMask entries := by
            rw [FieldValue.leaves, hmask]
          have hchild : child object name = [] := by rw [child, hobject]
          rw [hleaves, patchObject_map_cons hvalue (by rw [hmask]; exact List.cons_ne_nil _ _)
            (covered_toFieldMask entries hall hlookup), hchild,
            patchObject_toFieldMask entries hsorted hall hlookup (fun _ _ => rfl),
            hsorted.insertAll_nil]
  | _ => exact hleaf rfl
termination_by structural v

theorem patchObject_toFieldMask (entries : ObjectValue) (hsorted : Entries.Sorted entries)
    (hall : AllSorted entries) {value object : ObjectValue}
    (hvalue : ∀ entry ∈ entries, value.lookup entry.1 = some entry.2)
    (hobject : ∀ entry ∈ entries, object.lookup entry.1 = none) :
    patchObject value (toFieldMask entries) object = Entries.insertAll entries object := by
  cases entries with
  | nil => rfl
  | cons entry entries =>
      obtain ⟨name, v⟩ := entry
      obtain ⟨hfirst, hvalue⟩ := List.forall_mem_cons.mp hvalue
      obtain ⟨hname, hobject⟩ := List.forall_mem_cons.mp hobject
      obtain ⟨hhead, hsorted⟩ := List.pairwise_cons.mp hsorted
      rw [toFieldMask, patchObject_append, patchObject_leaves v hall.1 hfirst hname]
      refine patchObject_toFieldMask entries hsorted hall.2 hvalue fun entry hmem => ?_
      rw [Entries.lookup_insert_of_ne (hhead entry hmem).ne']
      exact hobject entry hmem
termination_by structural entries

end

/-- **A mask of all leaves rebuilds the object**, empty objects in it included. -/
theorem patchObject_toFieldMask_empty (value : ObjectValue)
    (h : (FieldValue.object value).Sorted) : patchObject value (toFieldMask value) [] = value := by
  obtain ⟨hsorted, hall⟩ := h
  have hlookup : ∀ entry ∈ value, value.lookup entry.1 = some entry.2 :=
    fun entry hmem => hsorted.lookup_of_mem hmem
  rw [patchObject_toFieldMask value hsorted hall hlookup fun _ _ => rfl, hsorted.insertAll_nil]

theorem patchObject_toFieldMask_nested :
    patchObject [("a", .object [("b", .object [])])]
      (toFieldMask [("a", .object [("b", .object [])])]) []
      = [("a", .object [("b", .object [])])] :=
  patchObject_toFieldMask_empty [("a", .object [("b", .object [])])]
    (by simp [Entries.Sorted, FieldValue.Sorted, AllSorted])

end ObjectValue

end ProductivityApp.Firestore
