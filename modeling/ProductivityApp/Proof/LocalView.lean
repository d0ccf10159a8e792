import ProductivityApp.Firestore.LocalStore
import ProductivityApp.Proof.QueuedWrites

/-!
# The local view of a document

What the app sees of a document is its remote document with every queued batch applied in order.
Each operation of the store keeps the queues and the cache in order, and the changes it returns are
enough: a document it does not return looks as it did, and a document it returns looks as it is
returned. A document that is missing and one that is known to be deleted look the same.
-/

namespace ProductivityApp.Firestore

open LocalStore

/-- Two states of knowledge in which the app sees the same. -/
def Alike (a b : Option MaybeDocument) : Prop :=
  a.bind MaybeDocument.toDocument = b.bind MaybeDocument.toDocument

theorem Alike.refl (a : Option MaybeDocument) : Alike a a := rfl

theorem alike_getD (a : Option MaybeDocument) (key : DocumentKey) :
    Alike (some (a.getD (.noDocument key 0 false))) a := by
  cases a <;> rfl

/-! ### Applying mutations -/

section Mutations

variable {a b : Option MaybeDocument} {key : DocumentKey}

theorem Alike.isValidFor (h : Alike a b) (precondition : Precondition) :
    precondition.isValidFor a = precondition.isValidFor b := by
  unfold Precondition.isValidFor
  rw [h]

theorem Alike.applyToLocalView (h : Alike a b) (mutation : Mutation) :
    Alike (mutation.applyToLocalView a) (mutation.applyToLocalView b) := by
  unfold Mutation.applyToLocalView
  rw [h.isValidFor]
  split
  · cases mutation with
    | set key value precondition =>
        unfold Mutation.getPostMutationVersion
        rw [h]
        rfl
    | patch key value mask precondition =>
        unfold Mutation.getPostMutationVersion Mutation.patchDocument
        rw [h]
        rfl
    | delete key precondition => rfl
  · exact h

theorem Alike.applyToLocalDocument (h : Alike a b) (batch : MutationBatch) (key : DocumentKey) :
    Alike (batch.applyToLocalDocument a key) (batch.applyToLocalDocument b key) := by
  unfold MutationBatch.applyToLocalDocument
  induction batch.mutations generalizing a b with
  | nil => exact h
  | cons mutation mutations ih =>
      simp only [List.foldl_cons]
      split
      · exact ih (h.applyToLocalView mutation)
      · exact ih h

theorem Alike.applyBatches (h : Alike a b) (batches : List MutationBatch) (key : DocumentKey) :
    Alike (applyBatches batches key a) (applyBatches batches key b) := by
  induction batches generalizing a b with
  | nil => exact h
  | cons batch batches ih => exact ih (h.applyToLocalDocument batch key)

theorem applyToLocalDocument_of_not_touches {batch : MutationBatch}
    (h : batch.touches (· = key) = false) : batch.applyToLocalDocument a key = a := by
  have hne : ∀ mutation ∈ batch.mutations, mutation.key ≠ key := by
    intro mutation hmem heq
    rw [MutationQueue.touches_key_iff.mpr ⟨mutation, hmem, heq⟩] at h
    cases h
  unfold MutationBatch.applyToLocalDocument
  clear h
  generalize batch.mutations = mutations at hne ⊢
  induction mutations with
  | nil => rfl
  | cons mutation mutations ih =>
      obtain ⟨hfirst, hrest⟩ := List.forall_mem_cons.mp hne
      rw [List.foldl_cons, if_neg hfirst]
      exact ih hrest

/-- Only the batches that change a document matter to it. -/
theorem applyBatches_filter (p : MutationBatch → Bool) (batches : List MutationBatch)
    (hp : ∀ batch ∈ batches, p batch = false → batch.touches (· = key) = false) :
    applyBatches (batches.filter p) key a = applyBatches batches key a := by
  induction batches generalizing a with
  | nil => rfl
  | cons batch batches ih =>
      obtain ⟨hfirst, hrest⟩ := List.forall_mem_cons.mp hp
      cases hbatch : p batch with
      | true =>
          rw [List.filter_cons_of_pos hbatch]
          exact ih hrest
      | false =>
          rw [List.filter_cons_of_neg (by simp [hbatch]), ih hrest]
          unfold applyBatches
          rw [List.foldl_cons, applyToLocalDocument_of_not_touches (hfirst hbatch)]

theorem applyBatches_of_not_touches {batches : List MutationBatch}
    (h : ∀ batch ∈ batches, batch.touches (· = key) = false) : applyBatches batches key a = a := by
  rw [← applyBatches_filter (fun _ => false) batches fun batch hmem _ => h batch hmem,
    List.filter_false]
  rfl

theorem touches_of_contains {p : DocumentKey → Bool} {batch : MutationBatch} (hp : p key = true)
    (h : batch.touches p = false) : batch.touches (· = key) = false := by
  by_contra htouches
  obtain ⟨mutation, hmem, rfl⟩ := MutationQueue.touches_key_iff.mp (Bool.of_not_eq_false htouches)
  rw [MutationQueue.touches_iff.mpr ⟨mutation, hmem, hp⟩] at h
  cases h

theorem contains_keys {batch : MutationBatch} :
    batch.keys.contains key = true ↔ batch.touches (· = key) = true := by
  rw [MutationBatch.keys, SortedSet.contains_ofList, List.mem_map, MutationQueue.touches_key_iff]

end Mutations

/-! ### Reading -/

namespace LocalStore

/-- What the store knows of a document. -/
def localView (store : LocalStore) (key : DocumentKey) : Option MaybeDocument :=
  applyBatches store.mutationQueue.queue key (store.remoteDocuments.find key)

/-- What the app sees of a document. -/
def document (store : LocalStore) (key : DocumentKey) : Option Document :=
  (store.localView key).bind MaybeDocument.toDocument

structure Valid (store : LocalStore) : Prop where
  queues : ∀ user, (store.mutationQueues user).Valid
  keyed : ∀ key doc, store.remoteDocuments.find key = some doc → doc.key = key

variable {store : LocalStore}

theorem Valid.queue (h : store.Valid) : store.mutationQueue.Valid := h.queues store.user

theorem valid_initial (user : User) : (initial user).Valid where
  queues _ := MutationQueue.valid_initial
  keyed key doc h := by cases h

theorem getDocument_eq (h : store.Valid) (key : DocumentKey) :
    store.getDocument key = some (store.localView key) := by
  rw [getDocument, h.queue.allMutationBatchesAffectingDocumentKey]
  refine congrArg some (applyBatches_filter _ _ fun batch _ hbatch => hbatch)

theorem getLocalViewOfDocuments_eq (h : store.Valid)
    (baseDocs : SortedMap DocumentKey (Option MaybeDocument)) :
    ∃ documents, store.getLocalViewOfDocuments baseDocs = some documents
      ∧ ∀ key, documents.find key = (baseDocs.find key).map fun doc =>
          (applyBatches store.mutationQueue.queue key doc).getD (.noDocument key 0 false) := by
  rw [getLocalViewOfDocuments, h.queue.allMutationBatchesAffectingDocumentKeys]
  refine ⟨_, rfl, fun key => ?_⟩
  rw [SortedMap.find_mapValues]
  cases hfind : baseDocs.find key with
  | none => rfl
  | some doc =>
      have hcontains : SortedSet.contains (baseDocs.mapValues fun _ _ => ()) key = true := by
        rw [SortedSet.contains, SortedMap.find_mapValues, hfind]
        rfl
      refine congrArg (fun found => some (Option.getD found _)) ?_
      exact applyBatches_filter _ _ fun batch _ hbatch => touches_of_contains hcontains hbatch

theorem getDocuments_eq (h : store.Valid) (keys : SortedSet DocumentKey) :
    ∃ documents, store.getDocuments keys = some documents
      ∧ ∀ key, documents.find key
          = if keys.contains key then some ((store.localView key).getD (.noDocument key 0 false))
            else none := by
  obtain ⟨documents, hdocuments, hfind⟩ := getLocalViewOfDocuments_eq h
    (keys.mapValues fun key _ => store.remoteDocuments.find key)
  refine ⟨documents, hdocuments, fun key => ?_⟩
  rw [hfind, SortedMap.find_mapValues, SortedSet.contains]
  cases keys.find key <;> rfl

/-! ### Operations -/

/-- The changes account for every difference the app can see between two states of the store. -/
def Accounts (before after : LocalStore) (changes : MaybeDocumentMap) : Prop :=
  ∀ key, match changes.find key with
    | some doc => doc.toDocument = after.document key
    | none => after.document key = before.document key

/-- Reading all documents that may have changed accounts for what did. -/
theorem accounts_getDocuments {before : LocalStore} {keys : SortedSet DocumentKey}
    {changes : MaybeDocumentMap} (h : store.Valid)
    (hchanges : store.getDocuments keys = some changes)
    (hsame : ∀ key, keys.contains key = false → store.document key = before.document key) :
    Accounts before store changes := by
  obtain ⟨documents, hdocuments, hfind⟩ := getDocuments_eq h keys
  cases hchanges.symm.trans hdocuments
  intro key
  rw [hfind]
  split
  · rename_i doc hdoc
    split at hdoc
    · cases hdoc
      exact alike_getD (store.localView key) key
    · cases hdoc
  · rename_i hnone
    split at hnone
    · cases hnone
    · rename_i hcontains
      exact hsame key (Bool.of_not_eq_true hcontains)

section Queue

variable {q : MutationQueue}

@[simp]
theorem mutationQueue_setMutationQueue (store : LocalStore) (q : MutationQueue) :
    (store.setMutationQueue q).mutationQueue = q :=
  Function.update_self ..

@[simp]
theorem setMutationQueue_self (store : LocalStore) :
    store.setMutationQueue store.mutationQueue = store := by
  unfold setMutationQueue mutationQueue
  rw [Function.update_eq_self]

theorem Valid.setMutationQueue (h : store.Valid) (hq : q.Valid) :
    (store.setMutationQueue q).Valid where
  queues user := by
    change (Function.update store.mutationQueues store.user q user).Valid
    by_cases huser : user = store.user
    · rw [huser, Function.update_self]
      exact hq
    · rw [Function.update_of_ne huser]
      exact h.queues user
  keyed := h.keyed

end Queue

/-- The queue with what the user writes next. -/
def written (store : LocalStore) (mutations : List Mutation) : LocalStore :=
  store.setMutationQueue
    (store.mutationQueue.append ⟨store.mutationQueue.nextBatchId, mutations⟩)

theorem localView_written (store : LocalStore) (mutations : List Mutation) (key : DocumentKey) :
    (store.written mutations).localView key
      = MutationBatch.applyToLocalDocument ⟨store.mutationQueue.nextBatchId, mutations⟩
          (store.localView key) key := by
  rw [localView, written, mutationQueue_setMutationQueue]
  exact List.foldl_append

theorem isSome_applyToLocalDocument (batch : MutationBatch) (doc : MaybeDocument)
    (key : DocumentKey) : (batch.applyToLocalDocument (some doc) key).isSome = true := by
  unfold MutationBatch.applyToLocalDocument
  induction batch.mutations generalizing doc with
  | nil => rfl
  | cons mutation mutations ih =>
      rw [List.foldl_cons]
      split
      · have hsome : ∃ next, mutation.applyToLocalView (some doc) = some next := by
          unfold Mutation.applyToLocalView
          split
          · cases mutation <;> exact ⟨_, rfl⟩
          · exact ⟨doc, rfl⟩
        obtain ⟨next, hnext⟩ := hsome
        rw [hnext]
        exact ih next
      · exact ih doc

theorem find_applyAt (batch : MutationBatch) (documents : MaybeDocumentMap) (mutation : Mutation)
    (key : DocumentKey) :
    (batch.applyAt documents mutation).find key
      = if mutation.key = key then
          (batch.applyToLocalDocument (documents.find key) key).or (documents.find key)
        else documents.find key := by
  rw [MutationBatch.applyAt, SortedMap.find_insertSome]
  by_cases hkey : mutation.key = key
  · rw [if_pos hkey.symm, if_pos hkey, hkey]
  · rw [if_neg (Ne.symm hkey), if_neg hkey]

/-- A batch that changes no document twice is applied once to each document. -/
theorem find_applyToLocalDocumentSet {batch : MutationBatch}
    (hkeys : (batch.mutations.map Mutation.key).Nodup) (documentSet : MaybeDocumentMap)
    (key : DocumentKey) :
    (batch.applyToLocalDocumentSet documentSet).find key
      = if batch.touches (· = key) then
          (batch.applyToLocalDocument (documentSet.find key) key).or (documentSet.find key)
        else documentSet.find key := by
  have hfold (mutations : List Mutation) (hnodup : (mutations.map Mutation.key).Nodup)
      (documents : MaybeDocumentMap) :
      (mutations.foldl batch.applyAt documents).find key
        = if mutations.any (·.key = key) then
            (batch.applyToLocalDocument (documents.find key) key).or (documents.find key)
          else documents.find key := by
    induction mutations generalizing documents with
    | nil => rfl
    | cons mutation mutations ih =>
        obtain ⟨hnot, hnodup⟩ := List.nodup_cons.mp hnodup
        rw [List.foldl_cons, ih hnodup, List.any_cons, find_applyAt]
        by_cases hkey : mutation.key = key
        · have hany : (mutations.any fun other => other.key = key) = false := by
            simpa [hkey] using fun other hmem heq =>
              hnot (List.mem_map.mpr ⟨other, hmem, heq.trans hkey.symm⟩)
          rw [hany, if_pos hkey, decide_eq_true hkey]
          rfl
        · rw [if_neg hkey, decide_eq_false hkey]
          rfl
  exact hfold batch.mutations hkeys documentSet

theorem writeLocally_eq (h : store.Valid) {mutations : List Mutation} (hne : mutations ≠ []) :
    ∃ changes, store.writeLocally mutations
        = some (store.mutationQueue.nextBatchId, changes, store.written mutations)
      ∧ (store.written mutations).Valid
      ∧ ((mutations.map Mutation.key).Nodup →
        Accounts store (store.written mutations) changes) := by
  obtain ⟨hadd, hvalid⟩ := h.queue.add hne
  obtain ⟨existing, hexisting, hfind⟩ :=
    getDocuments_eq h (.ofList (mutations.map Mutation.key))
  refine ⟨_, by rw [writeLocally, hexisting, hadd]; rfl, h.setMutationQueue hvalid, ?_⟩
  intro hkeys key
  have htouches : (SortedSet.ofList (mutations.map Mutation.key)).contains key
      = MutationBatch.touches (· = key) ⟨store.mutationQueue.nextBatchId, mutations⟩ :=
    Bool.eq_iff_iff.mpr (@contains_keys key ⟨store.mutationQueue.nextBatchId, mutations⟩)
  rw [find_applyToLocalDocumentSet hkeys, hfind, htouches, document, localView_written]
  cases hbatch : MutationBatch.touches (· = key) ⟨store.mutationQueue.nextBatchId, mutations⟩ with
  | true =>
      obtain ⟨doc, hdoc⟩ := Option.isSome_iff_exists.mp (isSome_applyToLocalDocument
        ⟨store.mutationQueue.nextBatchId, mutations⟩
        ((store.localView key).getD (.noDocument key 0 false)) key)
      have halike := (alike_getD (store.localView key) key).applyToLocalDocument
        ⟨store.mutationQueue.nextBatchId, mutations⟩ key
      rw [hdoc] at halike
      simp only [if_true, hdoc, Option.some_or]
      exact halike
  | false =>
      simp only [Bool.false_eq_true, if_false]
      rw [applyToLocalDocument_of_not_touches hbatch]
      rfl

/-! ### Answers -/

/-- The answer to the first batch of the queue, with as many versions as it has mutations. -/
structure Answers (store : LocalStore) (result : MutationBatchResult) (rest : List MutationBatch) :
    Prop where
  queue : store.mutationQueue.queue = result.batch :: rest
  length : result.versions.length = result.batch.mutations.length

/-- What the store knows of the remote document after the batch is acknowledged. -/
def acknowledged (result : MutationBatchResult) (key : DocumentKey)
    (remoteDoc : Option MaybeDocument) : Option MaybeDocument :=
  if remoteDoc.all fun doc => doc.version < (result.docVersions.find key).getD 0 then
    result.batch.applyToRemoteDocument remoteDoc key result.versions
  else remoteDoc

section Answer

variable {result : MutationBatchResult} {rest : List MutationBatch} {key : DocumentKey}

theorem map_zip_versions (h : result.versions.length = result.batch.mutations.length) :
    (result.batch.mutations.zip result.versions).map Prod.fst = result.batch.mutations :=
  List.map_fst_zip h.ge

theorem isSome_docVersions (h : result.versions.length = result.batch.mutations.length)
    (htouches : result.batch.touches (· = key) = true) :
    (result.docVersions.find key).isSome = true := by
  have hfold (pairs : List (Mutation × SnapshotVersion))
      (versions : SortedMap DocumentKey SnapshotVersion)
      (hkey : (versions.find key).isSome = true ∨ ∃ pair ∈ pairs, pair.1.key = key) :
      ((pairs.foldl (fun versions (pair : Mutation × SnapshotVersion) =>
        versions.insert pair.1.key pair.2) versions).find key).isSome = true := by
    induction pairs generalizing versions with
    | nil => simpa using hkey
    | cons pair pairs ih =>
        rw [List.foldl_cons]
        apply ih
        rw [SortedMap.find_insert]
        obtain hfound | ⟨other, hmem, hother⟩ := hkey
        · left
          split
          · rfl
          · exact hfound
        · obtain rfl | hmem := List.mem_cons.mp hmem
          · left
            rw [if_pos hother.symm]
            rfl
          · exact Or.inr ⟨other, hmem, hother⟩
  obtain ⟨mutation, hmem, hkey⟩ := MutationQueue.touches_key_iff.mp htouches
  rw [← map_zip_versions h] at hmem
  obtain ⟨pair, hpair, rfl⟩ := List.mem_map.mp hmem
  exact hfold _ _ (Or.inr ⟨pair, hpair, hkey⟩)

theorem key_applyToRemoteDocument (mutation : Mutation) (maybeDoc : Option MaybeDocument)
    (version : SnapshotVersion) :
    (mutation.applyToRemoteDocument maybeDoc version).key = mutation.key := by
  cases mutation with
  | patch key value mask precondition =>
      unfold Mutation.applyToRemoteDocument
      dsimp only
      split <;> rfl
  | _ => rfl

/-- An acknowledged batch leaves a document at each key it changes. -/
theorem applyToRemoteDocument_eq (h : result.versions.length = result.batch.mutations.length)
    (htouches : result.batch.touches (· = key) = true) (remoteDoc : Option MaybeDocument) :
    ∃ doc, result.batch.applyToRemoteDocument remoteDoc key result.versions = some doc
      ∧ doc.key = key := by
  have hfold (pairs : List (Mutation × SnapshotVersion)) (maybeDoc : Option MaybeDocument)
      (hkey : (∃ doc, maybeDoc = some doc ∧ doc.key = key) ∨ ∃ pair ∈ pairs, pair.1.key = key) :
      ∃ doc, pairs.foldl (fun maybeDoc (pair : Mutation × SnapshotVersion) =>
          if pair.1.key = key then some (pair.1.applyToRemoteDocument maybeDoc pair.2)
          else maybeDoc) maybeDoc = some doc ∧ doc.key = key := by
    induction pairs generalizing maybeDoc with
    | nil => simpa using hkey
    | cons pair pairs ih =>
        rw [List.foldl_cons]
        apply ih
        by_cases hpair : pair.1.key = key
        · rw [if_pos hpair]
          exact Or.inl ⟨_, rfl, (key_applyToRemoteDocument _ _ _).trans hpair⟩
        · rw [if_neg hpair]
          obtain hdoc | ⟨other, hmem, hother⟩ := hkey
          · exact Or.inl hdoc
          · obtain rfl | hmem := List.mem_cons.mp hmem
            · exact absurd hother hpair
            · exact Or.inr ⟨other, hmem, hother⟩
  obtain ⟨mutation, hmem, hkey⟩ := MutationQueue.touches_key_iff.mp htouches
  rw [← map_zip_versions h] at hmem
  obtain ⟨pair, hpair, rfl⟩ := List.mem_map.mp hmem
  exact hfold _ _ (Or.inr ⟨pair, hpair, hkey⟩)

theorem applyResultTo_eq (h : result.versions.length = result.batch.mutations.length)
    (htouches : result.batch.touches (· = key) = true) (documents : MaybeDocumentMap) :
    ∃ next, applyResultTo result documents key = some next
      ∧ ∀ other, next.find other
          = if other = key then acknowledged result key (documents.find key)
            else documents.find other := by
  obtain ⟨version, hversion⟩ := Option.isSome_iff_exists.mp (isSome_docVersions h htouches)
  obtain ⟨doc, hdoc, hkey⟩ := applyToRemoteDocument_eq h htouches (documents.find key)
  unfold acknowledged applyResultTo
  simp only [hversion, hdoc, Option.bind_eq_bind, Option.bind_some, Option.getD_some]
  split
  · refine ⟨_, rfl, fun other => ?_⟩
    rw [SortedMap.find_insert, hkey]
    split <;> rfl
  · refine ⟨_, rfl, fun other => ?_⟩
    split
    · rename_i heq
      rw [heq]
    · rfl

theorem foldlM_applyResultTo (h : result.versions.length = result.batch.mutations.length)
    {keys : List DocumentKey} (hkeys : keys.Pairwise (· < ·))
    (htouches : ∀ key ∈ keys, result.batch.touches (· = key) = true)
    (documents : MaybeDocumentMap) :
    ∃ next, keys.foldlM (applyResultTo result) documents = some next
      ∧ ∀ other, next.find other
          = if other ∈ keys then acknowledged result other (documents.find other)
            else documents.find other := by
  induction keys generalizing documents with
  | nil => exact ⟨documents, rfl, fun other => by simp⟩
  | cons key keys ih =>
      obtain ⟨hfirst, hrest⟩ := List.forall_mem_cons.mp htouches
      obtain ⟨hlt, hkeys⟩ := List.pairwise_cons.mp hkeys
      obtain ⟨next, hnext, hfind⟩ := applyResultTo_eq h hfirst documents
      obtain ⟨last, hlast, hfindLast⟩ := ih hkeys hrest next
      refine ⟨last, ?_, fun other => ?_⟩
      · rw [List.foldlM_cons, hnext]
        exact hlast
      · rw [hfindLast, hfind]
        by_cases hother : other = key
        · subst hother
          have hnot : other ∉ keys := fun hmem => (hlt other hmem).false
          simp [hnot]
        · simp [hother]

theorem acknowledgeBatch_of_head {q : MutationQueue} {batch : MutationBatch}
    (hqueue : q.queue = batch :: rest) : q.acknowledgeBatch batch = some q := by
  rw [MutationQueue.acknowledgeBatch, hqueue]
  exact if_pos rfl

/-- What the queue no longer applies to a document, the document did not need. -/
theorem document_of_not_touches {before after : LocalStore} {batch : MutationBatch}
    (hbefore : before.mutationQueue.queue = batch :: rest)
    (hafter : after.mutationQueue.queue = rest)
    (hfind : after.remoteDocuments.find key = before.remoteDocuments.find key)
    (hcontains : batch.keys.contains key = false) : after.document key = before.document key := by
  have htouches : batch.touches (· = key) = false := by
    rw [← Bool.not_eq_true, ← contains_keys, hcontains]
    exact Bool.false_ne_true
  have hview : after.localView key = before.localView key :=
    calc after.localView key
        = applyBatches rest key (before.remoteDocuments.find key) := by
          rw [localView, hafter, hfind]
      _ = applyBatches (batch :: rest) key (before.remoteDocuments.find key) := by
          unfold applyBatches
          rw [List.foldl_cons, applyToLocalDocument_of_not_touches htouches]
      _ = before.localView key := by rw [localView, hbefore]
  rw [document, hview, document]

/-- An acknowledgement changes what is cached of the documents of the batch. -/
theorem acknowledgeBatch_eq (h : store.Valid) (hanswers : store.Answers result rest) :
    ∃ changes after, store.acknowledgeBatch result = some (changes, after) ∧ after.Valid
      ∧ after.user = store.user ∧ after.mutationQueue.queue = rest
      ∧ (∀ user, user ≠ store.user → after.mutationQueues user = store.mutationQueues user)
      ∧ (∀ key, after.remoteDocuments.find key
          = if result.batch.touches (· = key) then
              acknowledged result key (store.remoteDocuments.find key)
            else store.remoteDocuments.find key)
      ∧ Accounts store after changes := by
  obtain ⟨hqueue, hlength⟩ := hanswers
  obtain ⟨removed, hremove, hrest, hvalid⟩ := h.queue.remove hqueue
  have htouches : ∀ key ∈ result.batch.keys.toList, result.batch.touches (· = key) = true :=
    fun key hmem => contains_keys.mp (SortedSet.mem_toList.mp hmem)
  obtain ⟨documents, hdocuments, hfind⟩ :=
    foldlM_applyResultTo hlength result.batch.keys.pairwise_toList htouches store.remoteDocuments
  have hfind : ∀ key, documents.find key
      = if result.batch.touches (· = key) then
          acknowledged result key (store.remoteDocuments.find key)
        else store.remoteDocuments.find key := by
    intro key
    have hiff : key ∈ result.batch.keys.toList ↔ result.batch.touches (· = key) = true :=
      SortedSet.mem_toList.trans contains_keys
    rw [hfind]
    simp only [hiff]
  have hcached : Valid { store with remoteDocuments := documents } := by
    refine ⟨h.queues, fun key doc hdoc => ?_⟩
    rw [hfind, acknowledged] at hdoc
    split at hdoc
    · rename_i hkey
      split at hdoc
      · obtain ⟨found, hfound, hfoundKey⟩ :=
          applyToRemoteDocument_eq hlength hkey (store.remoteDocuments.find key)
        cases hdoc.symm.trans hfound
        exact hfoundKey
      · exact h.keyed key doc hdoc
    · exact h.keyed key doc hdoc
  have hafter := hcached.setMutationQueue hvalid
  obtain ⟨changes, hchanges, -⟩ := getDocuments_eq hafter result.batch.keys
  have happly : store.applyBatchResult result
      = some ({ store with remoteDocuments := documents }.setMutationQueue removed) := by
    rw [applyBatchResult, hdocuments, hremove]
    rfl
  refine ⟨changes, _, ?_, hafter, rfl, ?_, ?_, hfind, ?_⟩
  · rw [acknowledgeBatch, acknowledgeBatch_of_head hqueue]
    simp only [Option.bind_eq_bind, Option.bind_some, setMutationQueue_self, happly,
      mutationQueue_setMutationQueue, hvalid.performConsistencyCheck, hchanges]
    rfl
  · rw [mutationQueue_setMutationQueue, hrest]
  · intro user huser
    exact Function.update_of_ne huser _ _
  · refine accounts_getDocuments hafter hchanges fun key hcontains => ?_
    refine document_of_not_touches hqueue (by rw [mutationQueue_setMutationQueue, hrest]) ?_
      hcontains
    refine (hfind key).trans (if_neg ?_)
    rw [← contains_keys, hcontains]
    exact Bool.false_ne_true

theorem rejectBatch_eq (h : store.Valid) {batch : MutationBatch}
    (hqueue : store.mutationQueue.queue = batch :: rest) :
    ∃ changes after, store.rejectBatch batch.batchId = some (changes, after) ∧ after.Valid
      ∧ after.user = store.user ∧ after.mutationQueue.queue = rest
      ∧ (∀ user, user ≠ store.user → after.mutationQueues user = store.mutationQueues user)
      ∧ after.remoteDocuments = store.remoteDocuments ∧ Accounts store after changes := by
  obtain ⟨removed, hremove, hrest, hvalid⟩ := h.queue.remove hqueue
  have hlookup := h.queue.lookup_of_mem (hqueue ▸ List.mem_cons_self : batch ∈ _)
  have hafter := h.setMutationQueue hvalid
  obtain ⟨changes, hchanges, -⟩ := getDocuments_eq hafter batch.keys
  refine ⟨changes, _, ?_, hafter, rfl, ?_, ?_, rfl, ?_⟩
  · rw [rejectBatch, hlookup]
    simp only [Option.join_some, Option.bind_eq_bind, Option.bind_some, hremove,
      mutationQueue_setMutationQueue, hvalid.performConsistencyCheck, hchanges]
    rfl
  · rw [mutationQueue_setMutationQueue, hrest]
  · intro user huser
    exact Function.update_of_ne huser _ _
  · refine accounts_getDocuments hafter hchanges fun key hcontains => ?_
    exact document_of_not_touches hqueue (by rw [mutationQueue_setMutationQueue, hrest]) rfl
      hcontains

end Answer

/-! ### Watch and users -/

/-- Watch does not go back in time, and an event without a version only takes documents away. -/
structure Follows (store : LocalStore) (event : RemoteEvent) : Prop where
  later : event.snapshotVersion ≠ 0 → store.lastRemoteSnapshotVersion ≤ event.snapshotVersion
  lost : event.snapshotVersion = 0 → ∀ entry ∈ event.documentUpdates.entries,
    ∃ committed, entry.2 = .noDocument entry.1 0 committed

/-- Going through the updates of an event: a document is as it was, or changed to what was sent. -/
structure Watched (documents : MaybeDocumentMap)
    (state : MaybeDocumentMap × SortedMap DocumentKey (Option MaybeDocument)) : Prop where
  keyed : ∀ key doc, state.1.find key = some doc → doc.key = key
  cases : ∀ key, state.1.find key = documents.find key ∧ state.2.find key = none
    ∨ ∃ doc, state.2.find key = some (some doc) ∧ Alike (state.1.find key) (some doc)

theorem Watched.applyUpdate {documents : MaybeDocumentMap}
    {state : MaybeDocumentMap × SortedMap DocumentKey (Option MaybeDocument)}
    (h : Watched documents state) {snapshotVersion : SnapshotVersion} {key : DocumentKey}
    {doc : MaybeDocument} (hkey : doc.key = key)
    (hlost : snapshotVersion = 0 → ∃ committed, doc = .noDocument key 0 committed)
    (existingDoc : Option MaybeDocument) :
    ∃ next, applyUpdate snapshotVersion existingDoc state key doc = some next
      ∧ Watched documents next := by
  have hreplaced :
      Watched documents (state.1.insert doc.key doc, state.2.insert key (some doc)) := by
    constructor
    · intro other found hfound
      rw [SortedMap.find_insert] at hfound
      split at hfound
      · rename_i heq
        cases hfound
        exact heq.symm
      · exact h.keyed other found hfound
    · intro other
      rw [SortedMap.find_insert, SortedMap.find_insert, hkey]
      by_cases hother : other = key
      · rw [if_pos hother, if_pos hother]
        exact Or.inr ⟨doc, rfl, Alike.refl _⟩
      · rw [if_neg hother, if_neg hother]
        exact h.cases other
  unfold LocalStore.applyUpdate
  split
  · rename_i other version committed hversion
    refine ⟨_, rfl, fun other found hfound => ?_, fun other => ?_⟩
    · rw [SortedMap.find_erase] at hfound
      split at hfound
      · cases hfound
      · exact h.keyed other found hfound
    · rw [SortedMap.find_erase, SortedMap.find_insert]
      by_cases hother : other = key
      · rw [if_pos hother, if_pos hother]
        exact Or.inr ⟨_, rfl, rfl⟩
      · rw [if_neg hother, if_neg hother]
        exact h.cases other
  · rename_i hnot
    split
    · rw [if_neg]
      · exact ⟨_, rfl, hreplaced⟩
      · intro hzero
        obtain ⟨committed, rfl⟩ := hlost hzero
        exact hnot _ _ _ rfl rfl
    · exact ⟨state, rfl, h⟩

theorem applyRemoteEvent_eq (h : store.Valid) {event : RemoteEvent} (hevent : store.Follows event) :
    ∃ changes after, store.applyRemoteEvent event = some (changes, after) ∧ after.Valid
      ∧ after.user = store.user ∧ after.mutationQueues = store.mutationQueues
      ∧ Accounts store after changes := by
  have hfold : ∀ entries : List (DocumentKey × MaybeDocument),
      (∀ entry ∈ entries, entry ∈ event.documentUpdates.entries) → ∀ state,
      Watched store.remoteDocuments state → ∃ next, entries.foldlM
          (fun state (entry : DocumentKey × MaybeDocument) => applyUpdate event.snapshotVersion
            (store.remoteDocuments.find entry.1) state entry.1 entry.2) state = some next
        ∧ Watched store.remoteDocuments next := by
    intro entries hentries state hstate
    induction entries generalizing state with
    | nil => exact ⟨state, rfl, hstate⟩
    | cons entry entries ih =>
        obtain ⟨hfirst, hrest⟩ := List.forall_mem_cons.mp hentries
        have hkey := event.key_eq entry.1 entry.2 (SortedMap.find_eq_some_iff.mpr hfirst)
        obtain ⟨next, hnext, hwatched⟩ := hstate.applyUpdate hkey
          (fun hzero => hevent.lost hzero entry hfirst) (store.remoteDocuments.find entry.1)
        obtain ⟨last, hlast, hwatched⟩ := ih hrest next hwatched
        refine ⟨last, ?_, hwatched⟩
        rw [List.foldlM_cons, hnext]
        exact hlast
  obtain ⟨⟨documents, changed⟩, hdocuments, hkeyed, hcases⟩ :=
    hfold event.documentUpdates.entries (fun _ => id) (store.remoteDocuments, .empty)
      ⟨h.keyed, fun key => Or.inl ⟨rfl, rfl⟩⟩
  have hversion :
      ∃ version, store.nextRemoteSnapshotVersion event.snapshotVersion = some version := by
    unfold nextRemoteSnapshotVersion
    split
    · exact ⟨_, rfl⟩
    · rename_i hne
      exact ⟨_, if_pos (hevent.later hne)⟩
  obtain ⟨version, hversion⟩ := hversion
  have hafter : Valid { store with
      remoteDocuments := documents, lastRemoteSnapshotVersion := version } := ⟨h.queues, hkeyed⟩
  obtain ⟨changes, hchanges, hfind⟩ := getLocalViewOfDocuments_eq hafter changed
  refine ⟨changes, _, ?_, hafter, rfl, rfl, fun key => ?_⟩
  · rw [applyRemoteEvent]
    simp only [hdocuments, hversion, hchanges, Option.bind_eq_bind, Option.bind_some]
    rfl
  · rw [hfind]
    obtain ⟨hsame, hnone⟩ | ⟨doc, hsome, halike⟩ := hcases key
    · rw [hnone]
      change (applyBatches _ key (documents.find key)).bind _
        = (applyBatches _ key (store.remoteDocuments.find key)).bind _
      rw [hsame]
      rfl
    · rw [hsome]
      refine (alike_getD _ key).trans ?_
      exact (Alike.applyBatches halike.symm _ key)

theorem handleUserChange_eq (h : store.Valid) (user : User) :
    ∃ changes after, store.handleUserChange user = some (changes, after) ∧ after.Valid
      ∧ after.user = user
      ∧ after.mutationQueues
          = Function.update store.mutationQueues user (store.mutationQueues user).start
      ∧ after.remoteDocuments = store.remoteDocuments ∧ Accounts store after changes := by
  have hmoved : Valid { store with user } := ⟨h.queues, h.keyed⟩
  have hafter := hmoved.setMutationQueue (h.queues user).start
  obtain ⟨changes, hchanges, -⟩ := getDocuments_eq hafter
    (.ofList (((store.mutationQueue.queue ++ (store.mutationQueues user).start.queue).flatMap
      MutationBatch.mutations).map Mutation.key))
  refine ⟨changes, _, ?_, hafter, rfl, rfl, rfl, ?_⟩
  · rw [handleUserChange]
    have hqueue : (setMutationQueue { store with user }
        (mutationQueue { store with user }).start).mutationQueue
          = (store.mutationQueues user).start := mutationQueue_setMutationQueue _ _
    simp only [hqueue]
    rw [show mutationQueue { store with user } = store.mutationQueues user from rfl, hchanges]
    rfl
  · refine accounts_getDocuments hafter hchanges fun key hcontains => ?_
    have hnot (batch : MutationBatch)
        (hmem : batch ∈ store.mutationQueue.queue ++ (store.mutationQueues user).start.queue) :
        batch.touches (· = key) = false := by
      by_contra htouches
      obtain ⟨mutation, hmutation, hkey⟩ :=
        MutationQueue.touches_key_iff.mp (Bool.of_not_eq_false htouches)
      have hchanged := (SortedSet.contains_ofList _ key).mpr
        (List.mem_map.mpr ⟨mutation, List.mem_flatMap.mpr ⟨batch, hmem, hmutation⟩, hkey⟩)
      rw [hcontains] at hchanged
      cases hchanged
    have hbefore : store.localView key = store.remoteDocuments.find key :=
      applyBatches_of_not_touches fun batch hmem => hnot batch (List.mem_append_left _ hmem)
    have hlater : (setMutationQueue { store with user }
        (store.mutationQueues user).start).localView key = store.remoteDocuments.find key := by
      rw [localView, mutationQueue_setMutationQueue]
      exact applyBatches_of_not_touches fun batch hmem => hnot batch (List.mem_append_right _ hmem)
    rw [document, document, hbefore, hlater]

end LocalStore

end ProductivityApp.Firestore
