import Mathlib.Data.List.Pairwise
import Mathlib.Order.Lattice
import Mathlib.Order.Defs.LinearOrder

/-!
# Maps kept in the order of their keys

A map as a list of entries in the order of their keys. What a lookup finds after an insertion or an
erasure does not depend on the order, so these rules hold of every list. That two maps with the same
lookups are the same map does.
-/

/-! ### Lists of entries -/

namespace Entries

variable {κ α : Type} [LinearOrder κ]

/-- The entry goes before the first larger key and replaces the entry of its own key. -/
def insert (key : κ) (value : α) : List (κ × α) → List (κ × α)
  | [] => [(key, value)]
  | (k, v) :: rest =>
      if key < k then (key, value) :: (k, v) :: rest
      else if k < key then (k, v) :: insert key value rest
      else (key, value) :: rest

def erase (key : κ) (entries : List (κ × α)) : List (κ × α) :=
  entries.filter fun entry => entry.1 ≠ key

/-- The entries are inserted one after the other. -/
def insertAll (entries base : List (κ × α)) : List (κ × α) :=
  entries.foldl (fun base entry => insert entry.1 entry.2 base) base

def Sorted (entries : List (κ × α)) : Prop := entries.Pairwise fun a b => a.1 < b.1

variable {key other : κ} {value : α} {entries : List (κ × α)}

theorem lookup_cons (key : κ) (entry : κ × α) (rest : List (κ × α)) :
    (entry :: rest).lookup key = if key = entry.1 then some entry.2 else rest.lookup key := by
  obtain ⟨k, v⟩ := entry
  by_cases h : key = k
  · simp [h]
  · simp [List.lookup_cons, h, beq_eq_false_iff_ne.mpr h]

theorem lookup_insert (other key : κ) (value : α) (entries : List (κ × α)) :
    (insert key value entries).lookup other
      = if other = key then some value else entries.lookup other := by
  induction entries with
  | nil => simp [insert, lookup_cons]
  | cons entry rest ih =>
      obtain ⟨k, v⟩ := entry
      rw [insert]
      obtain hlt | rfl | hgt := lt_trichotomy key k
      · rw [if_pos hlt, lookup_cons]
      · rw [if_neg (lt_irrefl _), if_neg (lt_irrefl _)]
        simp only [lookup_cons]
        split <;> rfl
      · rw [if_neg hgt.not_gt, if_pos hgt, lookup_cons, lookup_cons, ih]
        by_cases hother : other = k
        · rw [if_pos hother, if_pos hother, if_neg (hother ▸ hgt.ne)]
        · rw [if_neg hother, if_neg hother]

@[simp]
theorem lookup_insert_self : (insert key value entries).lookup key = some value := by
  rw [lookup_insert, if_pos rfl]

theorem lookup_insert_of_ne (h : other ≠ key) :
    (insert key value entries).lookup other = entries.lookup other := by
  rw [lookup_insert, if_neg h]

theorem insert_insert (key : κ) (value former : α) (entries : List (κ × α)) :
    insert key value (insert key former entries) = insert key value entries := by
  induction entries with
  | nil => simp [insert]
  | cons entry rest ih =>
      obtain ⟨k, v⟩ := entry
      obtain hlt | rfl | hgt := lt_trichotomy key k
      · simp [insert, hlt]
      · simp [insert]
      · simp [insert, hgt, hgt.not_gt, ih]

theorem lookup_erase (other key : κ) (entries : List (κ × α)) :
    (erase key entries).lookup other = if other = key then none else entries.lookup other := by
  induction entries with
  | nil => simp [erase]
  | cons entry rest ih =>
      obtain ⟨k, v⟩ := entry
      rw [erase] at ih ⊢
      by_cases hk : k = key
      · rw [List.filter_cons_of_neg (by simp [hk]), ih, lookup_cons, hk]
        split <;> rfl
      · rw [List.filter_cons_of_pos (by simp [hk]), lookup_cons, ih, lookup_cons]
        by_cases hother : other = k
        · rw [if_pos hother, if_pos hother, if_neg (hother ▸ hk)]
        · rw [if_neg hother, if_neg hother]

@[simp]
theorem lookup_erase_self : (erase key entries).lookup key = none := by
  rw [lookup_erase, if_pos rfl]

theorem lookup_erase_of_ne (h : other ≠ key) :
    (erase key entries).lookup other = entries.lookup other := by
  rw [lookup_erase, if_neg h]

theorem mem_insert {entry : κ × α} (h : entry ∈ insert key value entries) :
    entry = (key, value) ∨ entry ∈ entries := by
  induction entries with
  | nil => simpa [insert] using h
  | cons head rest ih =>
      rw [insert] at h
      split_ifs at h
      · simpa using h
      · obtain rfl | hrest := List.mem_cons.mp h
        · exact Or.inr List.mem_cons_self
        · exact (ih hrest).imp_right (List.mem_cons_of_mem _)
      · exact (List.mem_cons.mp h).imp_right (List.mem_cons_of_mem _)

theorem mem_of_lookup (h : entries.lookup key = some value) : (key, value) ∈ entries := by
  induction entries with
  | nil => cases h
  | cons entry rest ih =>
      rw [lookup_cons] at h
      split_ifs at h with heq
      · obtain ⟨k, v⟩ := entry
        cases h
        cases heq
        exact List.mem_cons_self
      · exact List.mem_cons_of_mem _ (ih h)

namespace Sorted

theorem insert (h : Sorted entries) : Sorted (Entries.insert key value entries) := by
  induction entries with
  | nil => exact List.pairwise_singleton _ _
  | cons entry rest ih =>
      obtain ⟨hhead, hrest⟩ := List.pairwise_cons.mp h
      rw [Entries.insert]
      split_ifs with hlt hgt
      · refine List.pairwise_cons.mpr ⟨fun e he => ?_, h⟩
        obtain rfl | he := List.mem_cons.mp he
        · exact hlt
        · exact hlt.trans (hhead e he)
      · refine List.pairwise_cons.mpr ⟨fun e he => ?_, ih hrest⟩
        obtain rfl | he := mem_insert he
        · exact hgt
        · exact hhead e he
      · have heq : key = entry.1 := le_antisymm (not_lt.mp hgt) (not_lt.mp hlt)
        exact List.pairwise_cons.mpr ⟨fun e he => heq ▸ hhead e he, hrest⟩

theorem erase (h : Sorted entries) : Sorted (Entries.erase key entries) := h.filter _

theorem lookup_of_mem (h : Sorted entries) (hmem : (key, value) ∈ entries) :
    entries.lookup key = some value := by
  induction entries with
  | nil => cases hmem
  | cons entry rest ih =>
      obtain ⟨hhead, hrest⟩ := List.pairwise_cons.mp h
      rw [lookup_cons]
      obtain rfl | hmem := List.mem_cons.mp hmem
      · rw [if_pos rfl]
      · rw [if_neg (hhead _ hmem).ne', ih hrest hmem]

theorem lookup_iff_mem (h : Sorted entries) :
    entries.lookup key = some value ↔ (key, value) ∈ entries :=
  ⟨mem_of_lookup, h.lookup_of_mem⟩

theorem ext {as bs : List (κ × α)} (has : Sorted as) (hbs : Sorted bs)
    (h : ∀ key, as.lookup key = bs.lookup key) : as = bs := by
  refine List.Perm.eq_of_pairwise (fun a b _ _ hab hba => absurd hab hba.not_gt) has hbs ?_
  refine (List.perm_ext_iff_of_nodup ?_ ?_).mpr fun ⟨key, value⟩ => ?_
  · exact List.Pairwise.imp (fun hlt heq => hlt.ne (congrArg Prod.fst heq)) has
  · exact List.Pairwise.imp (fun hlt heq => hlt.ne (congrArg Prod.fst heq)) hbs
  · rw [← has.lookup_iff_mem, ← hbs.lookup_iff_mem, h]

theorem insert_eq_self (h : Sorted entries) (hlookup : entries.lookup key = some value) :
    Entries.insert key value entries = entries := by
  refine h.insert.ext h fun other => ?_
  rw [lookup_insert]
  split
  · rename_i heq
    rw [heq, hlookup]
  · rfl

theorem erase_eq_self (h : Sorted entries) (hlookup : entries.lookup key = none) :
    Entries.erase key entries = entries := by
  refine h.erase.ext h fun other => ?_
  rw [lookup_erase]
  split
  · rename_i heq
    rw [heq, hlookup]
  · rfl

theorem lookup_eq_none_of_head {entry : κ × α} (h : Sorted (entry :: entries)) :
    entries.lookup entry.1 = none := by
  rw [List.lookup_eq_none_iff]
  exact fun other hmem => bne_iff_ne.mpr ((List.pairwise_cons.mp h).1 other hmem).ne

theorem insertAll {base : List (κ × α)} (h : Sorted base) :
    Sorted (Entries.insertAll entries base) := by
  induction entries generalizing base with
  | nil => exact h
  | cons entry entries ih => exact ih h.insert

theorem lookup_insertAll (h : Sorted entries) (base : List (κ × α)) (key : κ) :
    (Entries.insertAll entries base).lookup key = (entries.lookup key).or (base.lookup key) := by
  induction entries generalizing base with
  | nil => rfl
  | cons entry entries ih =>
      have hrest := (List.pairwise_cons.mp h).2
      rw [Entries.insertAll, List.foldl_cons]
      refine (ih hrest _).trans ?_
      rw [lookup_insert, lookup_cons]
      split
      · rename_i heq
        rw [heq, h.lookup_eq_none_of_head]
        rfl
      · rfl

theorem insertAll_nil (h : Sorted entries) : Entries.insertAll entries [] = entries := by
  refine Sorted.ext (Sorted.insertAll .nil) h fun key => ?_
  rw [h.lookup_insertAll, List.lookup_nil, Option.or_none]

end Sorted

end Entries

/-! ### Scans -/

section Scans

variable {κ α : Type} [LinearOrder κ] {list : List α} {f : α → κ} {a : α}

/-- What has a property of its key comes first, if with a key all keys before it have the property.
-/
theorem mem_takeWhile {p : κ → Bool} (hsorted : list.Pairwise fun a b => f a < f b)
    (hconvex : ∀ a ∈ list, ∀ b, f a ≤ b → p b = true → p (f a) = true) :
    a ∈ list.takeWhile (fun a => p (f a)) ↔ a ∈ list ∧ p (f a) = true := by
  induction list with
  | nil => simp
  | cons head list ih =>
      obtain ⟨hhead, hlist⟩ := List.pairwise_cons.mp hsorted
      cases hp : p (f head) with
      | true =>
          rw [List.takeWhile_cons, if_pos hp, List.mem_cons, List.mem_cons,
            ih hlist fun a hmem => hconvex a (List.mem_cons_of_mem _ hmem)]
          constructor
          · rintro (rfl | ⟨hmem, ha⟩)
            · exact ⟨Or.inl rfl, hp⟩
            · exact ⟨Or.inr hmem, ha⟩
          · rintro ⟨rfl | hmem, ha⟩
            · exact Or.inl rfl
            · exact Or.inr ⟨hmem, ha⟩
      | false =>
          rw [List.takeWhile_cons, if_neg (by simp [hp])]
          refine iff_of_false List.not_mem_nil fun ⟨hmem, ha⟩ => ?_
          have hle : f head ≤ f a := by
            obtain rfl | hmem := List.mem_cons.mp hmem
            · exact le_rfl
            · exact (hhead a hmem).le
          rw [hconvex head List.mem_cons_self (f a) hle ha] at hp
          cases hp

theorem mem_dropWhile {start : κ} (hsorted : list.Pairwise fun a b => f a < f b) :
    a ∈ list.dropWhile (fun a => f a < start) ↔ a ∈ list ∧ start ≤ f a := by
  induction list with
  | nil => simp
  | cons head list ih =>
      obtain ⟨hhead, hlist⟩ := List.pairwise_cons.mp hsorted
      by_cases hlt : f head < start
      · rw [List.dropWhile_cons_of_pos (by simpa using hlt), ih hlist, List.mem_cons]
        constructor
        · rintro ⟨hmem, hle⟩
          exact ⟨Or.inr hmem, hle⟩
        · rintro ⟨rfl | hmem, hle⟩
          · exact absurd hle hlt.not_ge
          · exact ⟨hmem, hle⟩
      · rw [List.dropWhile_cons_of_neg (by simpa using hlt)]
        refine ⟨fun hmem => ⟨hmem, ?_⟩, And.left⟩
        obtain rfl | hmem := List.mem_cons.mp hmem
        · exact not_lt.mp hlt
        · exact (not_lt.mp hlt).trans (hhead a hmem).le

/-- A scan that starts at a key and stops at the first key without a property finds everything that
has it, if the keys that have it are together. -/
theorem mem_scan {start : κ} {p : κ → Bool} (hsorted : list.Pairwise fun a b => f a < f b)
    (hconvex : ∀ a b, start ≤ a → a ≤ b → p b = true → p a = true) :
    a ∈ (list.dropWhile fun a => f a < start).takeWhile (fun a => p (f a))
      ↔ a ∈ list ∧ start ≤ f a ∧ p (f a) = true := by
  rw [mem_takeWhile (hsorted.sublist (List.dropWhile_sublist _)), mem_dropWhile hsorted, and_assoc]
  exact fun a hmem b => hconvex (f a) b ((mem_dropWhile hsorted).mp hmem).2

theorem scan_sublist (list : List α) (p q : α → Bool) :
    ((list.dropWhile p).takeWhile q).Sublist list :=
  (List.takeWhile_sublist _).trans (List.dropWhile_sublist _)

end Scans

/-! ### Maps -/

/-- A map, as its entries in the order of their keys. -/
structure SortedMap (κ α : Type) [LinearOrder κ] where
  entries : List (κ × α)
  sorted : Entries.Sorted entries

namespace SortedMap

variable {κ α β : Type} [LinearOrder κ]

def empty : SortedMap κ α := ⟨[], .nil⟩

def find (map : SortedMap κ α) (key : κ) : Option α := map.entries.lookup key

def keys (map : SortedMap κ α) : List κ := map.entries.map Prod.fst

def insert (map : SortedMap κ α) (key : κ) (value : α) : SortedMap κ α :=
  ⟨Entries.insert key value map.entries, map.sorted.insert⟩

def erase (map : SortedMap κ α) (key : κ) : SortedMap κ α :=
  ⟨Entries.erase key map.entries, map.sorted.erase⟩

/-- A value is inserted if there is one. -/
def insertSome (map : SortedMap κ α) (key : κ) : Option α → SortedMap κ α
  | some value => map.insert key value
  | none => map

/-- A value takes the place of the one that is there, and so does its absence. -/
def replace (map : SortedMap κ α) (key : κ) : Option α → SortedMap κ α
  | some value => map.insert key value
  | none => map.erase key

/-- Every value is replaced by one computed from it and its key. -/
def mapValues (map : SortedMap κ α) (f : κ → α → β) : SortedMap κ β where
  entries := map.entries.map fun entry => (entry.1, f entry.1 entry.2)
  sorted := by
    rw [Entries.Sorted, List.pairwise_map]
    exact map.sorted

def filter (map : SortedMap κ α) (p : κ → α → Bool) : SortedMap κ α where
  entries := map.entries.filter fun entry => p entry.1 entry.2
  sorted := List.Pairwise.filter _ map.sorted

variable {map : SortedMap κ α} {key other : κ} {value : α}

@[simp]
theorem find_empty (key : κ) : (empty : SortedMap κ α).find key = none := rfl

theorem find_insert (map : SortedMap κ α) (key other : κ) (value : α) :
    (map.insert key value).find other = if other = key then some value else map.find other :=
  Entries.lookup_insert other key value map.entries

theorem find_erase (map : SortedMap κ α) (key other : κ) :
    (map.erase key).find other = if other = key then none else map.find other :=
  Entries.lookup_erase other key map.entries

theorem find_eq_some_iff : map.find key = some value ↔ (key, value) ∈ map.entries :=
  map.sorted.lookup_iff_mem

theorem mem_keys : key ∈ map.keys ↔ (map.find key).isSome = true := by
  rw [keys, List.mem_map, Option.isSome_iff_exists]
  constructor
  · rintro ⟨entry, hmem, rfl⟩
    exact ⟨entry.2, find_eq_some_iff.mpr hmem⟩
  · rintro ⟨value, hfind⟩
    exact ⟨(key, value), find_eq_some_iff.mp hfind, rfl⟩

theorem find_mapValues (map : SortedMap κ α) (f : κ → α → β) (key : κ) :
    (map.mapValues f).find key = (map.find key).map (f key) := by
  change (map.entries.map fun entry => (entry.1, f entry.1 entry.2)).lookup key
    = (map.entries.lookup key).map (f key)
  induction map.entries with
  | nil => rfl
  | cons entry entries ih =>
      rw [List.map_cons, Entries.lookup_cons, Entries.lookup_cons, ih]
      split
      · rename_i heq
        rw [heq]
        rfl
      · rfl

theorem find_insertSome (map : SortedMap κ α) (key other : κ) (value : Option α) :
    (map.insertSome key value).find other
      = if other = key then value.or (map.find other) else map.find other := by
  cases value with
  | some value => exact find_insert map key other value
  | none => exact (ite_self _).symm

theorem find_replace (map : SortedMap κ α) (key other : κ) (value : Option α) :
    (map.replace key value).find other = if other = key then value else map.find other := by
  cases value with
  | some value => exact find_insert map key other value
  | none => exact find_erase map key other

/-- Keys whose values are put into a map, or left out. -/
theorem find_foldl_insertSome (keys : List κ) (f : κ → Option α) (map : SortedMap κ α) (key : κ) :
    (keys.foldl (fun map key => map.insertSome key (f key)) map).find key
      = if key ∈ keys then (f key).or (map.find key) else map.find key := by
  induction keys generalizing map with
  | nil => rfl
  | cons first keys ih =>
      rw [List.foldl_cons, ih, find_insertSome]
      by_cases hfirst : key = first
      · subst hfirst
        rw [if_pos rfl, if_pos List.mem_cons_self]
        split
        · rw [← Option.or_assoc, Option.or_self]
        · rfl
      · rw [if_neg hfirst]
        simp only [List.mem_cons, hfirst, false_or]

/-- Entries with distinct keys, each put into a map or left out. -/
theorem find_foldl_entries {entries : List (κ × α)} (hsorted : Entries.Sorted entries)
    (f : α → Option β) (map : SortedMap κ β) (key : κ) :
    (entries.foldl (fun map entry => map.insertSome entry.1 (f entry.2)) map).find key
      = ((entries.lookup key).bind f).or (map.find key) := by
  induction entries generalizing map with
  | nil => rfl
  | cons entry entries ih =>
      rw [List.foldl_cons, ih (List.pairwise_cons.mp hsorted).2, Entries.lookup_cons,
        find_insertSome]
      by_cases hkey : key = entry.1
      · rw [if_pos hkey, if_pos hkey, hkey, hsorted.lookup_eq_none_of_head]
        rfl
      · rw [if_neg hkey, if_neg hkey]

theorem find_filter (map : SortedMap κ α) (p : κ → α → Bool) (key : κ) :
    (map.filter p).find key = (map.find key).filter (p key) := by
  refine Option.ext fun value => ?_
  rw [find_eq_some_iff, Option.filter_eq_some_iff, find_eq_some_iff]
  exact List.mem_filter

end SortedMap

/-! ### Sets -/

/-- A set, as a map that only has keys. -/
abbrev SortedSet (κ : Type) [LinearOrder κ] := SortedMap κ Unit

namespace SortedSet

variable {κ : Type} [LinearOrder κ]

def contains (set : SortedSet κ) (key : κ) : Bool := (set.find key).isSome

def toList (set : SortedSet κ) : List κ := set.keys

/-- The keys are inserted one after the other. -/
def ofList (keys : List κ) : SortedSet κ := keys.foldl (fun set key => set.insert key ()) .empty

/-- The keys from the first one on that is not below `start`. -/
def valuesFrom (set : SortedSet κ) (start : κ) : List κ := set.toList.dropWhile (· < start)

theorem mem_toList {set : SortedSet κ} {key : κ} : key ∈ set.toList ↔ set.contains key = true :=
  SortedMap.mem_keys

theorem pairwise_toList (set : SortedSet κ) : set.toList.Pairwise (· < ·) :=
  List.pairwise_map.mpr set.sorted

theorem mem_valuesFrom {set : SortedSet κ} {start key : κ} {p : κ → Bool}
    (hconvex : ∀ a b, start ≤ a → a ≤ b → p b = true → p a = true) :
    key ∈ (set.valuesFrom start).takeWhile p
      ↔ set.contains key = true ∧ start ≤ key ∧ p key = true := by
  rw [← mem_toList]
  exact mem_scan set.pairwise_toList hconvex

theorem contains_insert (set : SortedSet κ) (key other : κ) :
    contains (set.insert key ()) other = true ↔ other = key ∨ contains set other = true := by
  rw [contains, contains, SortedMap.find_insert]
  split
  · rename_i heq
    simp [heq]
  · rename_i hne
    simp [hne]

theorem contains_erase (set : SortedSet κ) (key other : κ) :
    contains (set.erase key) other = true ↔ other ≠ key ∧ contains set other = true := by
  rw [contains, contains, SortedMap.find_erase]
  split
  · rename_i heq
    simp [heq]
  · rename_i hne
    simp [hne]

theorem contains_foldl_insert (keys : List κ) (set : SortedSet κ) (key : κ) :
    contains (keys.foldl (fun set key => set.insert key ()) set) key = true
      ↔ key ∈ keys ∨ contains set key = true := by
  induction keys generalizing set with
  | nil => simp
  | cons first keys ih =>
      rw [List.foldl_cons, ih, contains_insert, List.mem_cons, or_left_comm, or_assoc]

theorem contains_foldl_erase (keys : List κ) (set : SortedSet κ) (key : κ) :
    contains (keys.foldl (fun set key => set.erase key) set) key = true
      ↔ key ∉ keys ∧ contains set key = true := by
  induction keys generalizing set with
  | nil => simp
  | cons first keys ih =>
      rw [List.foldl_cons, ih, contains_erase, List.mem_cons, not_or, and_left_comm, and_assoc]

theorem contains_ofList (keys : List κ) (key : κ) :
    (ofList keys).contains key = true ↔ key ∈ keys := by
  rw [ofList, contains_foldl_insert, or_iff_left]
  simp [contains]

end SortedSet
