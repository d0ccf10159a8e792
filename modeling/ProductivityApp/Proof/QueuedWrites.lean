import ProductivityApp.Firestore.MutationQueue
import ProductivityApp.Firestore.Query

/-!
# What the mutation queue keeps

Batches have consecutive ids, and the index refers to exactly the batches that are queued. So a
batch is where its id says, every reference leads to one, and the scans of the index find exactly
the batches that change a document, one of several documents, or a document of a collection.
-/

namespace ProductivityApp.Firestore

/-- Some mutation of the batch changes a document with the property. -/
def MutationBatch.touches (p : DocumentKey → Bool) (batch : MutationBatch) : Bool :=
  batch.mutations.any fun mutation => p mutation.key

namespace MutationQueue

structure Valid (q : MutationQueue) : Prop where
  ids : ∀ (i : ℕ) batch, q.queue[i]? = some batch →
    batch.batchId = q.nextBatchId - q.queue.length + i
  positive : 1 ≤ q.nextBatchId - q.queue.length
  index : ∀ key id, q.batchesByDocumentKey.contains (toLex (key, id)) = true
    ↔ ∃ batch ∈ q.queue, batch.batchId = id ∧ batch.touches (· = key) = true

theorem touches_iff {p : DocumentKey → Bool} {batch : MutationBatch} :
    batch.touches p = true ↔ ∃ mutation ∈ batch.mutations, p mutation.key = true := by
  simp [MutationBatch.touches]

theorem touches_key_iff {batch : MutationBatch} {key : DocumentKey} :
    batch.touches (· = key) = true ↔ ∃ mutation ∈ batch.mutations, mutation.key = key := by
  simp [MutationBatch.touches]

theorem mem_references {batch : MutationBatch} {key : DocumentKey} {id : ℤ} :
    toLex (key, id) ∈ references batch ↔ batch.batchId = id ∧ batch.touches (· = key) = true := by
  rw [references, List.mem_map, touches_iff]
  constructor
  · rintro ⟨mutation, hmem, heq⟩
    cases heq
    exact ⟨rfl, mutation, hmem, by simp⟩
  · rintro ⟨rfl, mutation, hmem, hkey⟩
    exact ⟨mutation, hmem, by rw [of_decide_eq_true hkey]⟩

section Operations

variable {q : MutationQueue}

theorem valid_initial : Valid initial where
  ids i batch h := by simp [initial] at h
  positive := by simp [initial]
  index key id := by simp [initial, SortedSet.contains]

@[simp]
theorem queue_start (q : MutationQueue) : q.start.queue = q.queue := by
  unfold MutationQueue.start
  split <;> rfl

theorem Valid.start (h : Valid q) : Valid q.start := by
  unfold MutationQueue.start
  split
  · rename_i hempty
    have hqueue : q.queue = [] := List.isEmpty_iff.mp hempty
    exact
      { ids := by simp [hqueue]
        positive := by simp [hqueue]
        index := h.index }
  · exact h

theorem Valid.add (h : Valid q) {mutations : List Mutation} (hne : mutations ≠ []) :
    q.addMutationBatch mutations
        = some (⟨q.nextBatchId, mutations⟩, q.append ⟨q.nextBatchId, mutations⟩)
      ∧ Valid (q.append ⟨q.nextBatchId, mutations⟩) := by
  obtain ⟨hids, hpositive, hindex⟩ := h
  constructor
  · have hlast : ∀ prior, q.queue.getLast? = some prior → prior.batchId < q.nextBatchId := by
      intro prior hprior
      rw [List.getLast?_eq_getElem?] at hprior
      have hid := hids _ _ hprior
      obtain ⟨hlt, -⟩ := List.getElem?_eq_some_iff.mp hprior
      omega
    rw [addMutationBatch, if_neg (by simpa using hne)]
    dsimp only
    split
    · rename_i prior hprior
      rw [if_pos (hlast prior hprior)]
    · rfl
  · constructor
    · intro i batch hbatch
      rw [append] at hbatch
      rw [append, List.length_append, List.length_singleton]
      obtain hlt | heq | hgt := Nat.lt_trichotomy i q.queue.length
      · rw [List.getElem?_append_left hlt] at hbatch
        have hid := hids i batch hbatch
        push_cast
        omega
      · rw [List.getElem?_append_right heq.ge, heq, Nat.sub_self] at hbatch
        cases hbatch
        push_cast
        omega
      · rw [List.getElem?_eq_none (by simp; omega)] at hbatch
        cases hbatch
    · rw [append, List.length_append, List.length_singleton]
      push_cast
      omega
    · intro key id
      rw [append, SortedSet.contains_foldl_insert, mem_references, hindex]
      simp only [List.mem_append, List.mem_singleton]
      constructor
      · rintro (⟨hid, htouches⟩ | ⟨batch, hmem, hbatch⟩)
        · exact ⟨_, Or.inr rfl, hid, htouches⟩
        · exact ⟨batch, Or.inl hmem, hbatch⟩
      · rintro ⟨batch, hmem | rfl, hbatch⟩
        · exact Or.inr ⟨batch, hmem, hbatch⟩
        · exact Or.inl hbatch

theorem Valid.eq_of_batchId (h : Valid q) {a b : MutationBatch} (ha : a ∈ q.queue)
    (hb : b ∈ q.queue) (hid : a.batchId = b.batchId) : a = b := by
  obtain ⟨i, hi⟩ := List.mem_iff_getElem?.mp ha
  obtain ⟨j, hj⟩ := List.mem_iff_getElem?.mp hb
  have hia := h.ids i a hi
  have hjb := h.ids j b hj
  have hij : i = j := by omega
  rw [hij, hj] at hi
  cases hi
  rfl

theorem Valid.remove (h : Valid q) {head : MutationBatch} {rest : List MutationBatch}
    (hqueue : q.queue = head :: rest) :
    ∃ removed, q.removeMutationBatch head = some removed ∧ removed.queue = rest
      ∧ Valid removed := by
  refine ⟨_, by rw [removeMutationBatch, hqueue]; exact if_pos rfl, rfl, ?_⟩
  have hids := h.ids
  have hpositive := h.positive
  have hindex := h.index
  rw [hqueue, List.length_cons] at hids hpositive
  constructor
  · intro i batch hbatch
    have hid := hids (i + 1) batch (by rwa [List.getElem?_cons_succ])
    push_cast at hid
    dsimp only
    omega
  · push_cast at hpositive
    dsimp only
    omega
  · intro key id
    rw [SortedSet.contains_foldl_erase, mem_references, hindex, hqueue]
    have hdistinct : ∀ batch ∈ rest, batch.batchId ≠ head.batchId := by
      intro batch hmem heq
      obtain ⟨i, hi⟩ := List.mem_iff_getElem?.mp hmem
      have hbatch := hids (i + 1) batch (by rwa [List.getElem?_cons_succ])
      have hhead := hids 0 head rfl
      omega
    constructor
    · rintro ⟨hnot, batch, hmem, hbatch⟩
      obtain rfl | hmem := List.mem_cons.mp hmem
      · exact absurd hbatch hnot
      · exact ⟨batch, hmem, hbatch⟩
    · rintro ⟨batch, hmem, hid, htouches⟩
      refine ⟨?_, batch, List.mem_cons_of_mem _ hmem, hid, htouches⟩
      rintro ⟨hhead, -⟩
      exact hdistinct batch hmem (hid.trans hhead.symm)

theorem Valid.performConsistencyCheck (h : Valid q) : q.performConsistencyCheck = some () := by
  unfold MutationQueue.performConsistencyCheck
  split
  · rename_i hcheck
    obtain ⟨hempty, hindex⟩ := Bool.and_eq_true_iff.mp hcheck
    have hqueue : q.queue = [] := List.isEmpty_iff.mp hempty
    cases hentries : q.batchesByDocumentKey.entries with
    | nil => simp [hentries] at hindex
    | cons entry entries =>
        have hmem : entry.1 ∈ q.batchesByDocumentKey.toList := by
          simp [SortedSet.toList, SortedMap.keys, hentries]
        have hcontains := SortedSet.mem_toList.mp hmem
        obtain ⟨batch, hbatch, -⟩ := (h.index (ofLex entry.1).1 (ofLex entry.1).2).mp hcontains
        rw [hqueue] at hbatch
        cases hbatch
  · rfl

/-! ### What the scans find -/

theorem Valid.batchId_pos (h : Valid q) {batch : MutationBatch} (hmem : batch ∈ q.queue) :
    0 ≤ batch.batchId := by
  obtain ⟨i, hi⟩ := List.mem_iff_getElem?.mp hmem
  have hid := h.ids i batch hi
  have hpositive := h.positive
  omega

theorem Valid.lookup_of_mem (h : Valid q) {batch : MutationBatch} (hmem : batch ∈ q.queue) :
    q.lookupMutationBatch batch.batchId = some (some batch) := by
  obtain ⟨i, hi⟩ := List.mem_iff_getElem?.mp hmem
  have hindex : q.indexOfBatchId batch.batchId = i := by
    rw [indexOfBatchId]
    split
    · rename_i hqueue
      rw [hqueue] at hmem
      cases hmem
    · rename_i first rest hqueue
      have hfirst := h.ids 0 first (by rw [hqueue]; rfl)
      have hbatch := h.ids i batch hi
      omega
  rw [lookupMutationBatch, hindex, if_neg (by omega), Int.toNat_natCast, hi]
  exact if_pos rfl

theorem Valid.lookup_of_forall_ne (h : Valid q) {id : ℤ}
    (hne : ∀ batch ∈ q.queue, batch.batchId ≠ id) : q.lookupMutationBatch id = some none := by
  rw [lookupMutationBatch]
  split
  · rfl
  · rename_i hindex
    split
    · rfl
    · rename_i batch hbatch
      refine absurd ?_ (hne batch (List.mem_of_getElem? hbatch))
      have hid := h.ids _ batch hbatch
      rw [indexOfBatchId] at hindex hid
      split at hindex
      · rename_i hqueue
        rw [hqueue] at hbatch
        cases hbatch
      · rename_i first rest hqueue
        have hfirst := h.ids 0 first (by rw [hqueue]; rfl)
        simp only [hqueue] at hid hfirst
        omega

theorem Valid.pairwise (h : Valid q) : q.queue.Pairwise fun a b => a.batchId < b.batchId := by
  rw [List.pairwise_iff_getElem]
  intro i j hi hj hij
  have hid := h.ids i _ (List.getElem?_eq_getElem hi)
  have hjd := h.ids j _ (List.getElem?_eq_getElem hj)
  omega

theorem sorted_eq_of_mem_iff {as bs : List MutationBatch}
    (has : as.Pairwise fun a b => a.batchId < b.batchId)
    (hbs : bs.Pairwise fun a b => a.batchId < b.batchId) (h : ∀ batch, batch ∈ as ↔ batch ∈ bs) :
    as = bs := by
  refine List.Perm.eq_of_pairwise (fun a b _ _ hab hba => absurd hab hba.not_gt) has hbs ?_
  refine (List.perm_ext_iff_of_nodup ?_ ?_).mpr h
  · exact has.imp fun hlt heq => hlt.ne (congrArg MutationBatch.batchId heq)
  · exact hbs.imp fun hlt heq => hlt.ne (congrArg MutationBatch.batchId heq)

/-- Looking up ids in their order finds the batches that have them, in theirs. -/
theorem Valid.lookups (h : Valid q) {ids : List ℤ} (hids : ids.Pairwise (· < ·)) :
    ∃ found, ids.mapM q.lookupMutationBatch = some found
      ∧ found.filterMap id = q.queue.filter fun batch => batch.batchId ∈ ids := by
  have hlookup (id : ℤ) : ∃ result, q.lookupMutationBatch id = some result
      ∧ ∀ batch, result = some batch ↔ batch ∈ q.queue ∧ batch.batchId = id := by
    by_cases hmem : ∃ batch ∈ q.queue, batch.batchId = id
    · obtain ⟨batch, hmem, rfl⟩ := hmem
      refine ⟨_, h.lookup_of_mem hmem, fun other => ?_⟩
      rw [Option.some_inj]
      constructor
      · rintro rfl
        exact ⟨hmem, rfl⟩
      · rintro ⟨hother, hid⟩
        exact h.eq_of_batchId hmem hother hid.symm
    · refine ⟨_, h.lookup_of_forall_ne fun batch hbatch hid => hmem ⟨batch, hbatch, hid⟩, ?_⟩
      intro other
      refine iff_of_false (by simp) ?_
      rintro ⟨hother, hid⟩
      exact hmem ⟨other, hother, hid⟩
  choose result hresult hsome using hlookup
  have hmapM : ids.mapM q.lookupMutationBatch = some (ids.map result) := by
    clear hids
    induction ids with
    | nil => rfl
    | cons id ids ih => simp [List.mapM_cons, hresult, ih]
  refine ⟨_, hmapM, sorted_eq_of_mem_iff ?_ (h.pairwise.filter _) ?_⟩
  · rw [List.filterMap_map, List.pairwise_filterMap]
    refine hids.imp fun hlt batch hbatch other hother => ?_
    rw [((hsome _ batch).mp hbatch).2, ((hsome _ other).mp hother).2]
    exact hlt
  · intro batch
    rw [List.filterMap_map, List.mem_filterMap, List.mem_filter]
    constructor
    · rintro ⟨id, hid, hbatch⟩
      obtain ⟨hmem, rfl⟩ := (hsome id batch).mp hbatch
      exact ⟨hmem, by simpa using hid⟩
    · rintro ⟨hmem, hid⟩
      exact ⟨batch.batchId, by simpa using hid, (hsome _ batch).mpr ⟨hmem, rfl⟩⟩

theorem Valid.allMutationBatchesWithIds (h : Valid q) (ids : SortedSet ℤ) :
    q.allMutationBatchesWithIds ids
      = some (q.queue.filter fun batch => ids.contains batch.batchId) := by
  obtain ⟨found, hfound, hfilter⟩ := h.lookups ids.pairwise_toList
  rw [MutationQueue.allMutationBatchesWithIds, hfound]
  refine congrArg some (hfilter.trans (List.filter_congr fun batch _ => ?_))
  simp [SortedSet.mem_toList]

theorem Valid.mem_documentScan (h : Valid q) {key : DocumentKey}
    {reference : DocumentKeyReference} :
    reference ∈ (q.batchesByDocumentKey.valuesFrom (toLex (key, 0))).takeWhile
        (fun reference => (ofLex reference).1 = key)
      ↔ ∃ batch ∈ q.queue, reference = toLex (key, batch.batchId)
          ∧ batch.touches (· = key) = true := by
  rw [SortedSet.mem_valuesFrom]
  · obtain ⟨other, id⟩ := reference
    constructor
    · rintro ⟨hcontains, -, hkey⟩
      obtain rfl : other = key := of_decide_eq_true hkey
      obtain ⟨batch, hmem, rfl, htouches⟩ := (h.index other id).mp hcontains
      exact ⟨batch, hmem, rfl, htouches⟩
    · rintro ⟨batch, hmem, heq, htouches⟩
      cases heq
      refine ⟨(h.index _ _).mpr ⟨batch, hmem, rfl, htouches⟩, ?_, decide_eq_true rfl⟩
      exact Prod.Lex.toLex_le_toLex.mpr (Or.inr ⟨rfl, h.batchId_pos hmem⟩)
  · rintro ⟨a, i⟩ ⟨b, j⟩ ha hab hb
    obtain rfl : b = key := of_decide_eq_true hb
    have hle : b ≤ a := by
      obtain hlt | ⟨heq, -⟩ := Prod.Lex.toLex_le_toLex.mp ha
      · exact hlt.le
      · exact le_of_eq heq
    have hge : a ≤ b := by
      obtain hlt | ⟨heq, -⟩ := Prod.Lex.toLex_le_toLex.mp hab
      · exact hlt.le
      · exact le_of_eq heq
    exact decide_eq_true (le_antisymm hge hle)

theorem mapM_eq_filterMap {α β : Type} {f : α → Option β} {l : List α}
    (h : ∀ a ∈ l, (f a).isSome = true) : l.mapM f = some (l.filterMap f) := by
  induction l with
  | nil => rfl
  | cons a l ih =>
      obtain ⟨ha, hl⟩ := List.forall_mem_cons.mp h
      obtain ⟨b, hb⟩ := Option.isSome_iff_exists.mp ha
      simp [List.mapM_cons, hb, ih hl]

theorem Valid.allMutationBatchesAffectingDocumentKey (h : Valid q) (key : DocumentKey) :
    q.allMutationBatchesAffectingDocumentKey key
      = some (q.queue.filter fun batch => batch.touches (· = key)) := by
  have hscan (reference : DocumentKeyReference) := @Valid.mem_documentScan q h key reference
  have hlookup : ∀ batch ∈ q.queue, (q.lookupMutationBatch batch.batchId).join = some batch :=
    fun batch hmem => by rw [h.lookup_of_mem hmem]; rfl
  rw [MutationQueue.allMutationBatchesAffectingDocumentKey, mapM_eq_filterMap]
  · refine congrArg some (sorted_eq_of_mem_iff ?_ (h.pairwise.filter _) fun batch => ?_)
    · rw [List.pairwise_filterMap]
      have hsorted := (q.batchesByDocumentKey.pairwise_toList.sublist
        (List.dropWhile_sublist (· < toLex (key, 0)))).sublist
        (List.takeWhile_sublist fun reference => decide ((ofLex reference).1 = key))
      refine hsorted.imp_of_mem fun ha hb hlt batch hbatch other hother => ?_
      obtain ⟨a, hamem, rfl, -⟩ := (hscan _).mp ha
      obtain ⟨b, hbmem, rfl, -⟩ := (hscan _).mp hb
      cases (hlookup a hamem).symm.trans hbatch
      cases (hlookup b hbmem).symm.trans hother
      obtain hkey | ⟨-, hid⟩ := Prod.Lex.toLex_lt_toLex.mp hlt
      · exact absurd hkey (lt_irrefl _)
      · exact hid
    · rw [List.mem_filterMap, List.mem_filter]
      constructor
      · rintro ⟨reference, href, hbatch⟩
        obtain ⟨found, hmem, rfl, htouches⟩ := (hscan reference).mp href
        cases (hlookup found hmem).symm.trans hbatch
        exact ⟨hmem, htouches⟩
      · rintro ⟨hmem, htouches⟩
        exact ⟨_, (hscan _).mpr ⟨batch, hmem, rfl, htouches⟩, hlookup batch hmem⟩
  · intro reference href
    obtain ⟨batch, hmem, rfl, -⟩ := (hscan reference).mp href
    exact Option.isSome_iff_exists.mpr ⟨batch, hlookup batch hmem⟩

theorem Valid.allMutationBatchesAffectingDocumentKeys (h : Valid q) (keys : SortedSet DocumentKey) :
    q.allMutationBatchesAffectingDocumentKeys keys
      = some (q.queue.filter fun batch => batch.touches keys.contains) := by
  rw [MutationQueue.allMutationBatchesAffectingDocumentKeys, h.allMutationBatchesWithIds]
  refine congrArg some (List.filter_congr fun batch hbatch => Bool.eq_iff_iff.mpr ?_)
  rw [SortedSet.contains_ofList, List.mem_flatMap, touches_iff]
  constructor
  · rintro ⟨key, hkey, hmem⟩
    obtain ⟨reference, href, hid⟩ := List.mem_map.mp hmem
    obtain ⟨found, hfound, rfl, htouches⟩ := h.mem_documentScan.mp href
    obtain rfl := h.eq_of_batchId hfound hbatch hid
    obtain ⟨mutation, hmutation, heq⟩ := touches_iff.mp htouches
    refine ⟨mutation, hmutation, ?_⟩
    rw [of_decide_eq_true heq]
    exact SortedSet.mem_toList.mp hkey
  · rintro ⟨mutation, hmutation, hkey⟩
    refine ⟨mutation.key, SortedSet.mem_toList.mpr hkey,
      List.mem_map.mpr ⟨toLex (mutation.key, batch.batchId), ?_, rfl⟩⟩
    exact h.mem_documentScan.mpr
      ⟨batch, hbatch, rfl, touches_iff.mpr ⟨mutation, hmutation, decide_eq_true rfl⟩⟩

/-- Between the paths with a common beginning there are no other paths. -/
theorem isPrefix_of_not_lt {path a b : List String} (ha : ¬a < path) (hab : ¬b < a)
    (hb : path <+: b) : path <+: a := by
  induction path generalizing a b with
  | nil => exact List.nil_prefix
  | cons segment path ih =>
      obtain ⟨rest, rfl⟩ := hb
      cases a with
      | nil => exact absurd (List.nil_lt_cons segment path) ha
      | cons first a =>
          rw [List.cons_lt_cons_iff, not_or, not_and] at ha
          rw [List.cons_append, List.cons_lt_cons_iff, not_or, not_and] at hab
          have heq : segment = first := le_antisymm (not_lt.mp ha.1) (not_lt.mp hab.1)
          rw [heq, List.prefix_cons_inj]
          exact ih (ha.2 heq.symm) (hab.2 heq) (List.prefix_append _ _)

theorem not_lt_of_isPrefix {path key : List String} (h : path <+: key) : ¬key < path := by
  induction path generalizing key with
  | nil => exact List.not_lt_nil key
  | cons segment path ih =>
      obtain ⟨rest, rfl⟩ := h
      rw [List.cons_append, List.cons_lt_cons_iff, not_or, not_and]
      exact ⟨lt_irrefl _, fun _ => ih (List.prefix_append _ _)⟩

/-- A document of a collection does not come before where the scan of the collection starts. -/
theorem not_lt_start {path : List String} {key : DocumentKey}
    (h : isImmediateParentOf path key = true) : ¬key < path ++ [""] := by
  obtain ⟨hpath, hlength⟩ := Bool.and_eq_true_iff.mp h
  obtain ⟨rest, rfl⟩ := List.isPrefixOf_iff_prefix.mp hpath
  have hrest : rest.length = 1 := by
    have hlength := of_decide_eq_true hlength
    rw [List.length_append] at hlength
    omega
  obtain ⟨segment, rfl⟩ := List.length_eq_one_iff.mp hrest
  have hempty : ¬segment < "" := by
    rw [String.lt_iff_toList_lt]
    exact List.not_lt_nil _
  clear h hpath hlength hrest
  induction path with
  | nil =>
      rw [List.nil_append, List.nil_append, List.cons_lt_cons_iff, not_or, not_and]
      exact ⟨hempty, fun _ => List.not_lt_nil _⟩
  | cons first path ih =>
      rw [List.cons_append, List.cons_append, List.cons_lt_cons_iff, not_or, not_and]
      exact ⟨lt_irrefl _, fun _ => ih⟩

theorem Valid.allMutationBatchesAffectingQuery (h : Valid q) (path : List String) :
    q.allMutationBatchesAffectingQuery path
      = some (q.queue.filter fun batch => batch.touches (isImmediateParentOf path)) := by
  have hconvex : ∀ a b : DocumentKeyReference, toLex (path ++ [""], 0) ≤ a → a ≤ b →
      path.isPrefixOf (ofLex b).1 = true → path.isPrefixOf (ofLex a).1 = true := by
    rintro ⟨a, i⟩ ⟨b, j⟩ ha hab hb
    rw [List.isPrefixOf_iff_prefix] at hb ⊢
    refine isPrefix_of_not_lt (fun hlt => ?_) (fun hlt => ?_) hb
    · refine not_lt_of_isPrefix (List.prefix_append path [""]) ?_
      obtain hstart | ⟨heq, -⟩ := Prod.Lex.toLex_le_toLex.mp ha
      · exact hstart.trans hlt
      · exact heq.trans_lt hlt
    · obtain hstart | ⟨heq, -⟩ := Prod.Lex.toLex_le_toLex.mp hab
      · exact absurd hlt hstart.not_gt
      · exact absurd heq hlt.ne'
  rw [MutationQueue.allMutationBatchesAffectingQuery, h.allMutationBatchesWithIds]
  refine congrArg some (List.filter_congr fun batch hbatch => Bool.eq_iff_iff.mpr ?_)
  rw [SortedSet.contains_ofList, List.mem_map, touches_iff]
  constructor
  · rintro ⟨reference, hmem, hid⟩
    obtain ⟨hmem, hlength⟩ := List.mem_filter.mp hmem
    obtain ⟨hcontains, -, hpath⟩ := (SortedSet.mem_valuesFrom hconvex).mp hmem
    obtain ⟨found, hfound, hfid, htouches⟩ :=
      (h.index (ofLex reference).1 (ofLex reference).2).mp hcontains
    obtain rfl := h.eq_of_batchId hfound hbatch (hfid.trans hid)
    obtain ⟨mutation, hmutation, heq⟩ := touches_iff.mp htouches
    refine ⟨mutation, hmutation, ?_⟩
    rw [of_decide_eq_true heq, isImmediateParentOf, hpath, hlength]
    rfl
  · rintro ⟨mutation, hmutation, hparent⟩
    refine ⟨toLex (mutation.key, batch.batchId), List.mem_filter.mpr ⟨?_, ?_⟩, rfl⟩
    · refine (SortedSet.mem_valuesFrom hconvex).mpr ⟨?_, ?_, ?_⟩
      · exact (h.index _ _).mpr
          ⟨batch, hbatch, rfl, touches_iff.mpr ⟨mutation, hmutation, decide_eq_true rfl⟩⟩
      · rw [Prod.Lex.toLex_le_toLex]
        obtain hlt | heq | hgt := lt_trichotomy mutation.key (path ++ [""])
        · exact absurd hlt (not_lt_start hparent)
        · exact Or.inr ⟨heq.symm, h.batchId_pos hbatch⟩
        · exact Or.inl hgt
      · exact (Bool.and_eq_true_iff.mp hparent).1
    · exact (Bool.and_eq_true_iff.mp hparent).2

end Operations

end MutationQueue

end ProductivityApp.Firestore
