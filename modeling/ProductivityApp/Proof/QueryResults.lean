import ProductivityApp.Proof.LocalView

/-!
# Running a query on the local store

A query on a collection is not answered document by document. The cached documents that match are
found first, patched documents that do not match are added, and then the pending mutations are
applied to the results, knowing nothing about the documents left out. The answer is the same as that
of reading every document and keeping those that match, except for the version of a document that is
replaced while its cached copy does not match.
-/

namespace ProductivityApp.Firestore

open LocalStore

/-- A mutation as the app makes it: it replaces or deletes unconditionally, and a patch does not
depend on a version. -/
def Mutation.Plain : Mutation → Prop
  | .set _ _ precondition => precondition = .none
  | .patch _ _ _ precondition => ∀ time, precondition ≠ .updateTime time
  | .delete _ precondition => precondition = .none

/-- A document without its version. -/
def Document.contents (document : Document) : DocumentKey × ObjectValue × DocumentState :=
  (document.key, document.data, document.documentState)

/-- The same document, up to its version. -/
def SameContents (a b : Option Document) : Prop := a.map Document.contents = b.map Document.contents

theorem SameContents.refl (a : Option Document) : SameContents a a := rfl

/-- What a mutation does to a document the app sees. -/
def Mutation.apply (mutation : Mutation) (doc : Option Document) : Option Document :=
  (mutation.applyToLocalView (doc.map MaybeDocument.document)).bind MaybeDocument.toDocument

/-- The mutations of a document, one after the other. -/
def applyAll (mutations : List Mutation) (key : DocumentKey) (doc : Option Document) :
    Option Document :=
  mutations.foldl (fun doc mutation => if mutation.key = key then mutation.apply doc else doc) doc

section Mutations

variable {a b : Option Document} {mutation : Mutation} {mutations : List Mutation}
  {key : DocumentKey}

theorem alike_map_document (a : Option MaybeDocument) :
    Alike a ((a.bind MaybeDocument.toDocument).map MaybeDocument.document) := by
  cases a with
  | none => rfl
  | some doc => cases doc <;> rfl

theorem toDocument_applyToLocalView (mutation : Mutation) (a : Option MaybeDocument) :
    (mutation.applyToLocalView a).bind MaybeDocument.toDocument
      = mutation.apply (a.bind MaybeDocument.toDocument) :=
  (alike_map_document a).applyToLocalView mutation

theorem toDocument_applyBatches (batches : List MutationBatch) (key : DocumentKey)
    (a : Option MaybeDocument) :
    (applyBatches batches key a).bind MaybeDocument.toDocument
      = applyAll (batches.flatMap MutationBatch.mutations) key
        (a.bind MaybeDocument.toDocument) := by
  have hbatch (mutations : List Mutation) (a : Option MaybeDocument) :
      (mutations.foldl (fun maybeDoc mutation =>
          if mutation.key = key then mutation.applyToLocalView maybeDoc else maybeDoc) a).bind
          MaybeDocument.toDocument
        = applyAll mutations key (a.bind MaybeDocument.toDocument) := by
    induction mutations generalizing a with
    | nil => rfl
    | cons mutation mutations ih =>
        rw [List.foldl_cons, ih, applyAll, applyAll, List.foldl_cons]
        split
        · rw [toDocument_applyToLocalView]
        · rfl
  induction batches generalizing a with
  | nil => rfl
  | cons batch batches ih =>
      rw [List.flatMap_cons, applyAll, List.foldl_append]
      refine (ih _).trans ?_
      unfold MutationBatch.applyToLocalDocument
      rw [hbatch]
      rfl

theorem isValidFor_map_document (precondition : Precondition)
    (h : ∀ time, precondition ≠ .updateTime time) (hsame : a.isSome = b.isSome) :
    precondition.isValidFor (a.map MaybeDocument.document)
      = precondition.isValidFor (b.map MaybeDocument.document) := by
  cases precondition with
  | updateTime time => exact absurd rfl (h time)
  | «exists» exists_ =>
      cases a <;> cases b
      · rfl
      · cases hsame
      · cases hsame
      · rfl
  | none => rfl

theorem SameContents.isSome_eq (h : SameContents a b) : a.isSome = b.isSome := by
  have hmap := congrArg Option.isSome h
  rwa [Option.isSome_map, Option.isSome_map] at hmap

theorem SameContents.apply (h : SameContents a b) (hplain : mutation.Plain) :
    SameContents (mutation.apply a) (mutation.apply b) := by
  have hvalid : mutation.precondition.isValidFor (a.map MaybeDocument.document)
      = mutation.precondition.isValidFor (b.map MaybeDocument.document) := by
    refine isValidFor_map_document _ (fun time heq => ?_) h.isSome_eq
    cases mutation with
    | set key value precondition => exact Precondition.noConfusion (hplain.symm.trans heq)
    | patch key value mask precondition => exact hplain time heq
    | delete key precondition => exact Precondition.noConfusion (hplain.symm.trans heq)
  unfold Mutation.apply Mutation.applyToLocalView
  rw [hvalid]
  split
  · cases mutation with
    | set key value precondition => rfl
    | patch key value mask precondition =>
        have hdata : Mutation.patchDocument value mask (a.map MaybeDocument.document)
            = Mutation.patchDocument value mask (b.map MaybeDocument.document) := by
          cases a <;> cases b
          · rfl
          · cases h
          · cases h
          · obtain ⟨-, hdata, -⟩ := Prod.mk.inj (Option.some.inj h) |>.imp_right Prod.mk.inj
            unfold Mutation.patchDocument
            exact congrArg (ObjectValue.patchObject value mask) hdata
        simp only [hdata]
        rfl
    | delete key precondition => rfl
  · cases a <;> cases b
    · rfl
    · cases h
    · cases h
    · exact h

theorem SameContents.applyAll (h : SameContents a b)
    (hplain : ∀ mutation ∈ mutations, mutation.Plain) :
    SameContents (applyAll mutations key a) (applyAll mutations key b) := by
  induction mutations generalizing a b with
  | nil => exact h
  | cons mutation mutations ih =>
      obtain ⟨hfirst, hrest⟩ := List.forall_mem_cons.mp hplain
      rw [ProductivityApp.Firestore.applyAll, ProductivityApp.Firestore.applyAll, List.foldl_cons,
        List.foldl_cons]
      split
      · exact ih (h.apply hfirst) hrest
      · exact ih h hrest

theorem applyAll_of_not_touched (h : ∀ mutation ∈ mutations, mutation.key ≠ key) :
    applyAll mutations key a = a := by
  induction mutations generalizing a with
  | nil => rfl
  | cons mutation mutations ih =>
      obtain ⟨hfirst, hrest⟩ := List.forall_mem_cons.mp h
      rw [applyAll, List.foldl_cons, if_neg hfirst]
      exact ih hrest

/-- Whether the mutation patches the document. -/
def Mutation.patches (key : DocumentKey) (mutation : Mutation) : Bool :=
  mutation.isPatch && mutation.key = key

/-- A document that is replaced or deleted before it is patched does not matter. -/
theorem sameContents_applyAll_of_replaced (a b : Option Document)
    (hplain : ∀ mutation ∈ mutations, mutation.Plain)
    (hpatches : ∀ mutation ∈ mutations, mutation.patches key = false)
    (htouched : ∃ mutation ∈ mutations, mutation.key = key) :
    SameContents (applyAll mutations key a) (applyAll mutations key b) := by
  induction mutations generalizing a b with
  | nil => obtain ⟨mutation, hmem, -⟩ := htouched; cases hmem
  | cons mutation mutations ih =>
      obtain ⟨hfirst, hrest⟩ := List.forall_mem_cons.mp hplain
      obtain ⟨hnot, hpatches⟩ := List.forall_mem_cons.mp hpatches
      rw [ProductivityApp.Firestore.applyAll, ProductivityApp.Firestore.applyAll, List.foldl_cons,
        List.foldl_cons]
      split
      · rename_i hkey
        have hreplaced : SameContents (mutation.apply a) (mutation.apply b) := by
          cases mutation with
          | set key value precondition => cases hfirst; rfl
          | patch other value mask precondition => exact absurd hkey (of_decide_eq_false hnot)
          | delete key precondition => cases hfirst; rfl
        exact hreplaced.applyAll hrest
      · rename_i hkey
        obtain ⟨other, hmem, hother⟩ := htouched
        obtain rfl | hmem := List.mem_cons.mp hmem
        · exact absurd hother hkey
        · exact ih a b hrest hpatches ⟨other, hmem, hother⟩

theorem key_apply {doc : Option Document} (hdoc : ∀ d ∈ doc, d.key = mutation.key) :
    ∀ d ∈ mutation.apply doc, d.key = mutation.key := by
  intro d hd
  unfold Mutation.apply Mutation.applyToLocalView at hd
  split at hd
  · cases mutation with
    | set key value precondition => cases hd; rfl
    | patch key value mask precondition => cases hd; rfl
    | delete key precondition => cases hd
  · cases doc with
    | none => cases hd
    | some doc => exact hdoc d hd

theorem key_applyAll (hdoc : ∀ d ∈ a, d.key = key) :
    ∀ d ∈ applyAll mutations key a, d.key = key := by
  induction mutations generalizing a with
  | nil => exact hdoc
  | cons mutation mutations ih =>
      rw [applyAll, List.foldl_cons]
      split
      · rename_i hkey
        subst hkey
        exact ih (key_apply hdoc)
      · exact ih hdoc

end Mutations

/-! ### The scan of the cache -/

namespace LocalStore

variable {store : LocalStore} {query : Query} {key : DocumentKey}

/-- What is cached of a document, if it is there. -/
def remoteDocument (store : LocalStore) (key : DocumentKey) : Option Document :=
  (store.remoteDocuments.find key).bind MaybeDocument.toDocument

theorem Valid.key_remoteDocument (h : store.Valid) :
    ∀ d ∈ store.remoteDocument key, d.key = key := by
  intro d hd
  obtain ⟨doc, hfind, hdoc⟩ := Option.bind_eq_some_iff.mp hd
  cases doc with
  | document document => cases hdoc; exact h.keyed key _ hfind
  | noDocument key version hasCommittedMutations => cases hdoc
  | unknownDocument key version => cases hdoc

theorem isImmediateParentOf_of_matches {doc : Document} (hquery : isDocumentKey query.path = false)
    (h : query.matches doc = true) : isImmediateParentOf query.path doc.key = true := by
  obtain ⟨hpath, -⟩ := Bool.and_eq_true_iff.mp h
  rwa [Query.matchesPath, if_neg (by simp [hquery])] at hpath

theorem matches_document (hpath : isDocumentKey query.path = true)
    (horder : query.explicitOrderBys = []) (doc : Document) :
    query.matches doc = decide (query.path = doc.key) := by
  rw [Query.matches, Query.matchesPath, if_pos hpath, Query.matchesOrderBy, horder]
  exact Bool.and_true _

theorem find_getMatching (h : store.Valid) (hquery : isDocumentKey query.path = false)
    (key : DocumentKey) :
    (store.getMatching query).find key = (store.remoteDocument key).filter query.matches := by
  have hconvex : ∀ a b : DocumentKey, query.path ++ [""] ≤ a → a ≤ b →
      query.path.isPrefixOf b = true → query.path.isPrefixOf a = true := by
    intro a b ha hab hb
    rw [List.isPrefixOf_iff_prefix] at hb ⊢
    refine MutationQueue.isPrefix_of_not_lt (fun hlt => ?_) (not_lt.mpr hab) hb
    exact MutationQueue.not_lt_of_isPrefix (List.prefix_append query.path [""]) (ha.trans_lt hlt)
  obtain ⟨scan, hscan⟩ : ∃ scan, scan = (store.remoteDocuments.entries.dropWhile fun entry =>
      entry.1 < query.path ++ [""]).takeWhile fun entry => query.path.isPrefixOf entry.1 := ⟨_, rfl⟩
  have hsorted : Entries.Sorted scan :=
    hscan ▸ List.Pairwise.sublist (scan_sublist _ _ _) store.remoteDocuments.sorted
  have hmem (entry : DocumentKey × MaybeDocument) : entry ∈ scan
      ↔ entry ∈ store.remoteDocuments.entries ∧ query.path ++ [""] ≤ entry.1
        ∧ query.path.isPrefixOf entry.1 = true := by
    rw [hscan]
    convert @mem_scan _ _ _ _ Prod.fst entry _ _ store.remoteDocuments.sorted hconvex
  rw [getMatching, ← hscan, remoteDocument]
  rw [SortedMap.find_foldl_entries hsorted fun doc => doc.toDocument.filter query.matches]
  rw [SortedMap.find_empty, Option.or_none]
  refine Option.ext fun doc => ?_
  rw [Option.filter_eq_some_iff, Option.bind_eq_some_iff, Option.bind_eq_some_iff]
  constructor
  · rintro ⟨maybeDoc, hlookup, hdoc⟩
    obtain ⟨hdoc, hmatches⟩ := Option.filter_eq_some_iff.mp hdoc
    have hentry := ((hmem _).mp (Entries.mem_of_lookup hlookup)).1
    exact ⟨⟨maybeDoc, SortedMap.find_eq_some_iff.mpr hentry, hdoc⟩, hmatches⟩
  · rintro ⟨⟨maybeDoc, hfind, hdoc⟩, hmatches⟩
    have hkey : doc.key = key :=
      h.key_remoteDocument doc (Option.bind_eq_some_iff.mpr ⟨maybeDoc, hfind, hdoc⟩)
    have hparent := hkey ▸ isImmediateParentOf_of_matches hquery hmatches
    refine ⟨maybeDoc, hsorted.lookup_of_mem ((hmem _).mpr ⟨?_, ?_, ?_⟩),
      Option.filter_eq_some_iff.mpr ⟨hdoc, hmatches⟩⟩
    · exact SortedMap.find_eq_some_iff.mp hfind
    · exact not_lt.mp (MutationQueue.not_lt_start hparent)
    · exact (Bool.and_eq_true_iff.mp hparent).1

/-! ### Patched documents and pending mutations -/

theorem find_addMissingBaseDocuments (store : LocalStore) (batches : List MutationBatch)
    (docs : SortedMap DocumentKey Document) (key : DocumentKey) :
    (store.addMissingBaseDocuments batches docs).find key
      = if (batches.flatMap MutationBatch.mutations).any (·.patches key) then
          (docs.find key).or (store.remoteDocument key)
        else docs.find key := by
  have hmem : key ∈ (missingDocKeys batches docs).toList
      ↔ (batches.flatMap MutationBatch.mutations).any (·.patches key) = true
        ∧ (docs.find key).isNone = true := by
    rw [SortedSet.mem_toList, missingDocKeys, SortedSet.contains_ofList, List.mem_map,
      List.any_eq_true]
    constructor
    · rintro ⟨mutation, hfilter, rfl⟩
      obtain ⟨hmutation, hmissing⟩ := List.mem_filter.mp hfilter
      obtain ⟨hpatch, hnone⟩ := Bool.and_eq_true_iff.mp hmissing
      exact
        ⟨⟨mutation, hmutation, by rw [Mutation.patches, hpatch, decide_eq_true rfl]; rfl⟩, hnone⟩
    · rintro ⟨⟨mutation, hmutation, hpatches⟩, hnone⟩
      obtain ⟨hpatch, hkey⟩ := Bool.and_eq_true_iff.mp hpatches
      obtain rfl := of_decide_eq_true hkey
      refine ⟨mutation, List.mem_filter.mpr ⟨hmutation, ?_⟩, rfl⟩
      rw [hpatch, hnone]
      rfl
  refine (SortedMap.find_foldl_insertSome _ _ _ _).trans ?_
  split
  · rename_i hmissing
    obtain ⟨hpatches, hnone⟩ := hmem.mp hmissing
    rw [if_pos hpatches, Option.isNone_iff_eq_none.mp hnone, Option.or_none]
    rfl
  · rename_i hmissing
    split
    · rename_i hpatches
      cases hdoc : docs.find key with
      | none => exact absurd (hmem.mpr ⟨hpatches, by rw [hdoc]; rfl⟩) hmissing
      | some doc => rfl
    · rfl

theorem find_mutateResults (results : SortedMap DocumentKey Document) (mutation : Mutation)
    (hkey : isImmediateParentOf query.path key = true) :
    (mutateResults query results mutation).find key
      = if mutation.key = key then mutation.apply (results.find key) else results.find key := by
  unfold mutateResults
  by_cases heq : mutation.key = key
  · subst heq
    rw [if_pos hkey, if_pos rfl, SortedMap.find_replace, if_pos rfl]
    rfl
  · rw [if_neg heq]
    split
    · rw [SortedMap.find_replace, if_neg (Ne.symm heq)]
    · rfl

theorem find_foldl_mutateResults (mutations : List Mutation)
    (results : SortedMap DocumentKey Document) (hkey : isImmediateParentOf query.path key = true) :
    (mutations.foldl (mutateResults query) results).find key
      = applyAll mutations key (results.find key) := by
  induction mutations generalizing results with
  | nil => rfl
  | cons mutation mutations ih =>
      calc ((mutation :: mutations).foldl (mutateResults query) results).find key
          = applyAll mutations key ((mutateResults query results mutation).find key) := ih _
        _ = applyAll mutations key
              (if mutation.key = key then mutation.apply (results.find key)
                else results.find key) := by rw [find_mutateResults results mutation hkey]
        _ = applyAll (mutation :: mutations) key (results.find key) := rfl

theorem find_foldl_mutateResults_of_not (mutations : List Mutation)
    (results : SortedMap DocumentKey Document)
    (hkey : isImmediateParentOf query.path key = false) :
    (mutations.foldl (mutateResults query) results).find key = results.find key := by
  induction mutations generalizing results with
  | nil => rfl
  | cons mutation mutations ih =>
      rw [List.foldl_cons, ih, mutateResults]
      split
      · rename_i hparent
        have hne : key ≠ mutation.key := by
          rintro rfl
          rw [hkey] at hparent
          cases hparent
        rw [SortedMap.find_replace, if_neg hne]
      · rfl

theorem document_eq (store : LocalStore) (key : DocumentKey) :
    store.document key
      = applyAll (store.mutationQueue.queue.flatMap MutationBatch.mutations) key
          (store.remoteDocument key) :=
  toDocument_applyBatches _ _ _

theorem Valid.key_document (h : store.Valid) : ∀ d ∈ store.document key, d.key = key := by
  rw [document_eq]
  exact key_applyAll h.key_remoteDocument

theorem SameContents.filter {a b : Option Document} (h : SameContents a b) (query : Query) :
    SameContents (a.filter query.matches) (b.filter query.matches) := by
  cases a <;> cases b
  · rfl
  · cases h
  · cases h
  · rename_i a b
    have hmatches : query.matches a = query.matches b := by
      obtain ⟨hkey, hdata, -⟩ := Prod.mk.inj (Option.some.inj h) |>.imp_right Prod.mk.inj
      have hpath : query.matchesPath a = query.matchesPath b := by
        unfold Query.matchesPath
        rw [hkey]
      have horder : query.matchesOrderBy a = query.matchesOrderBy b := by
        unfold Query.matchesOrderBy Document.field
        rw [hdata]
      rw [Query.matches, Query.matches, hpath, horder]
    rw [Option.filter_some, Option.filter_some, hmatches]
    split
    · exact h
    · rfl

theorem document_eq_filter {p : DocumentKey → Bool} (hp : p key = true) :
    store.document key
      = applyAll ((store.mutationQueue.queue.filter fun batch => batch.touches p).flatMap
          MutationBatch.mutations) key (store.remoteDocument key) := by
  rw [document, localView, ← applyBatches_filter (fun batch => batch.touches p) _
    fun batch _ hbatch => touches_of_contains hp hbatch]
  exact toDocument_applyBatches _ _ _

theorem filter_matches_eq_none {doc : Option Document} (hquery : isDocumentKey query.path = false)
    (hkey : isImmediateParentOf query.path key = false) (hdoc : ∀ d ∈ doc, d.key = key) :
    doc.filter query.matches = none := by
  rw [Option.filter_eq_none_iff]
  intro d hd hmatches
  have hparent := isImmediateParentOf_of_matches hquery hmatches
  rw [hdoc d hd, hkey] at hparent
  cases hparent

theorem sameContents_collection (h : store.Valid) (hquery : isDocumentKey query.path = false)
    {mutations : List Mutation} (hplain : ∀ mutation ∈ mutations, mutation.Plain)
    {base : SortedMap DocumentKey Document}
    (hbase : base.find key = if mutations.any (·.patches key) then
        ((store.getMatching query).find key).or (store.remoteDocument key)
      else (store.getMatching query).find key) :
    SameContents ((applyAll mutations key (base.find key)).filter query.matches)
      ((applyAll mutations key (store.remoteDocument key)).filter query.matches) := by
  rw [hbase, find_getMatching h hquery]
  cases hdoc : store.remoteDocument key with
  | none => rw [Option.filter_none, Option.none_or, ite_self]; exact SameContents.refl _
  | some doc =>
      rw [Option.filter_some]
      split
      · rename_i hpatches
        split
        · exact SameContents.refl _
        · exact SameContents.refl _
      · rename_i hpatches
        split
        · exact SameContents.refl _
        · rename_i hmatches
          -- the cached document does not match and is not patched
          by_cases htouched : ∃ mutation ∈ mutations, mutation.key = key
          · refine SameContents.filter ?_ query
            refine sameContents_applyAll_of_replaced _ _ hplain ?_ htouched
            intro mutation hmem
            by_contra hpatch
            exact hpatches (List.any_eq_true.mpr ⟨mutation, hmem, Bool.of_not_eq_false hpatch⟩)
          · have huntouched (d : Option Document) : applyAll mutations key d = d :=
              applyAll_of_not_touched fun mutation hmem hkey => htouched ⟨mutation, hmem, hkey⟩
            rw [huntouched, huntouched, Option.filter_some, if_neg hmatches]
            rfl

theorem getDocumentsMatchingCollectionQuery_eq (h : store.Valid)
    (hquery : isDocumentKey query.path = false)
    (hplain : ∀ batch ∈ store.mutationQueue.queue, ∀ mutation ∈ batch.mutations, mutation.Plain) :
    ∃ results, store.getDocumentsMatchingCollectionQuery query = some results
      ∧ ∀ key, SameContents (results.find key) ((store.document key).filter query.matches) := by
  refine ⟨_, by rw [getDocumentsMatchingCollectionQuery,
    h.queue.allMutationBatchesAffectingQuery]; rfl, fun key => ?_⟩
  rw [SortedMap.find_filter]
  have hbase := find_addMissingBaseDocuments store (store.mutationQueue.queue.filter fun batch =>
    batch.touches (isImmediateParentOf query.path)) (store.getMatching query) key
  cases hkey : isImmediateParentOf query.path key with
  | true =>
      rw [find_foldl_mutateResults _ _ hkey, document_eq_filter hkey]
      refine sameContents_collection h hquery (fun mutation hmem => ?_) hbase
      obtain ⟨batch, hbatch, hmutation⟩ := List.mem_flatMap.mp hmem
      exact hplain batch (List.mem_of_mem_filter hbatch) mutation hmutation
  | false =>
      rw [find_foldl_mutateResults_of_not _ _ hkey,
        filter_matches_eq_none hquery hkey h.key_document,
        filter_matches_eq_none hquery hkey fun d hd => ?_]
      · exact SameContents.refl _
      · rw [hbase, find_getMatching h hquery] at hd
        split at hd
        · obtain hd | ⟨-, hd⟩ := Option.or_eq_some_iff.mp hd
          · exact h.key_remoteDocument d (Option.filter_eq_some_iff.mp hd).1
          · exact h.key_remoteDocument d hd
        · exact h.key_remoteDocument d (Option.filter_eq_some_iff.mp hd).1

theorem getDocumentsMatchingQuery_eq (h : store.Valid)
    (hquery : isDocumentKey query.path = true → query.explicitOrderBys = [])
    (hplain : ∀ batch ∈ store.mutationQueue.queue, ∀ mutation ∈ batch.mutations, mutation.Plain) :
    ∃ results, store.getDocumentsMatchingQuery query = some results
      ∧ ∀ key, SameContents (results.find key) ((store.document key).filter query.matches) := by
  cases hpath : isDocumentKey query.path with
  | false =>
      rw [getDocumentsMatchingQuery, if_neg (by simp [hpath])]
      exact getDocumentsMatchingCollectionQuery_eq h hpath hplain
  | true =>
      have hfilter (key : DocumentKey) : (store.document key).filter query.matches
          = if key = query.path then store.document query.path else none := by
        split
        · rename_i heq
          rw [heq]
          cases hdoc : store.document query.path with
          | none => rfl
          | some d =>
              rw [Option.filter_some, matches_document hpath (hquery hpath), h.key_document d hdoc]
              exact if_pos (decide_eq_true rfl)
        · rename_i hne
          rw [Option.filter_eq_none_iff]
          intro d hd
          rw [matches_document hpath (hquery hpath), h.key_document d hd, decide_eq_true_iff]
          exact Ne.symm hne
      rw [getDocumentsMatchingQuery, if_pos hpath, getDocument_eq h]
      cases hdoc : store.document query.path with
      | none =>
          refine ⟨.empty, ?_, fun key => ?_⟩
          · rw [document] at hdoc
            simp only [Option.bind_eq_bind, Option.bind_some, hdoc]
            rfl
          · rw [hfilter, hdoc, ite_self]
            rfl
      | some d =>
          refine ⟨SortedMap.empty.insert d.key d, ?_, fun key => ?_⟩
          · rw [document] at hdoc
            simp only [Option.bind_eq_bind, Option.bind_some, hdoc]
            rfl
          · rw [hfilter, hdoc, SortedMap.find_insert, h.key_document d hdoc]
            split <;> rfl

end LocalStore

end ProductivityApp.Firestore
