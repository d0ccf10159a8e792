import Mathlib.Logic.Function.Basic
import ProductivityApp.Firestore.MutationQueue
import ProductivityApp.Firestore.Query

/-!
# The local store

`local_store.cc`, `local_documents_view.cc` and the in-memory cache of remote documents. What the
app sees of a document is the remote document with the pending batches applied to it. A write goes
to the queue, its acknowledgement moves it to the cache, and a rejection drops it. Each of these
returns the documents it may have changed.

A user has a queue, and all users share the cache. A failed assertion is `none`.
-/

namespace ProductivityApp.Firestore

/-- `auth::User`, by uid -/
abbrev User := Option String

/-- `MaybeDocumentMap` -/
abbrev MaybeDocumentMap := SortedMap DocumentKey MaybeDocument

structure LocalStore where
  mutationQueues : User → MutationQueue
  user : User
  remoteDocuments : MaybeDocumentMap
  lastRemoteSnapshotVersion : SnapshotVersion

/-- What `ApplyToLocalDocumentSet` does for one mutation: the whole batch is applied to the document
of the mutation. -/
def MutationBatch.applyAt (batch : MutationBatch) (mutated : MaybeDocumentMap)
    (mutation : Mutation) : MaybeDocumentMap :=
  mutated.insertSome mutation.key
    (batch.applyToLocalDocument (mutated.find mutation.key) mutation.key)

/-- `ApplyToLocalDocumentSet` -/
def MutationBatch.applyToLocalDocumentSet (batch : MutationBatch) (documentSet : MaybeDocumentMap) :
    MaybeDocumentMap :=
  batch.mutations.foldl batch.applyAt documentSet

/-- `MutationBatchResult`, with one version for each mutation -/
structure MutationBatchResult where
  batch : MutationBatch
  versions : List SnapshotVersion

/-- `doc_versions` -/
def MutationBatchResult.docVersions (result : MutationBatchResult) :
    SortedMap DocumentKey SnapshotVersion :=
  (result.batch.mutations.zip result.versions).foldl
    (fun versions (mutation, version) => versions.insert mutation.key version) .empty

/-- What is read of `RemoteEvent`: the documents Watch sent, each at its own key. -/
structure RemoteEvent where
  snapshotVersion : SnapshotVersion
  documentUpdates : MaybeDocumentMap
  key_eq : ∀ key doc, documentUpdates.find key = some doc → doc.key = key

namespace LocalStore

/-- `Start`, on empty persistence -/
def initial (user : User) : LocalStore := ⟨fun _ => .initial, user, .empty, 0⟩

def mutationQueue (store : LocalStore) : MutationQueue := store.mutationQueues store.user

def setMutationQueue (store : LocalStore) (queue : MutationQueue) : LocalStore :=
  { store with mutationQueues := Function.update store.mutationQueues store.user queue }

/-! ### The local view of documents -/

def applyBatches (batches : List MutationBatch) (key : DocumentKey) (doc : Option MaybeDocument) :
    Option MaybeDocument :=
  batches.foldl (fun doc batch => batch.applyToLocalDocument doc key) doc

/-- `GetDocument` -/
def getDocument (store : LocalStore) (key : DocumentKey) : Option (Option MaybeDocument) := do
  let batches ← store.mutationQueue.allMutationBatchesAffectingDocumentKey key
  return applyBatches batches key (store.remoteDocuments.find key)

/-- `GetLocalViewOfDocuments`. A document that is missing is reported as deleted. -/
def getLocalViewOfDocuments (store : LocalStore)
    (baseDocs : SortedMap DocumentKey (Option MaybeDocument)) : Option MaybeDocumentMap := do
  let batches ← store.mutationQueue.allMutationBatchesAffectingDocumentKeys
    (baseDocs.mapValues fun _ _ => ())
  return baseDocs.mapValues fun key doc =>
    (applyBatches batches key doc).getD (.noDocument key 0 false)

/-- `GetDocuments` -/
def getDocuments (store : LocalStore) (keys : SortedSet DocumentKey) : Option MaybeDocumentMap :=
  store.getLocalViewOfDocuments (keys.mapValues fun key _ => store.remoteDocuments.find key)

/-- `GetMatching`, a scan of the documents below the path of the query -/
def getMatching (store : LocalStore) (query : Query) : SortedMap DocumentKey Document :=
  ((store.remoteDocuments.entries.dropWhile fun entry => entry.1 < query.path ++ [""]).takeWhile
      fun entry => query.path.isPrefixOf entry.1).foldl
    (fun results entry =>
      results.insertSome entry.1 (entry.2.toDocument.filter query.matches))
    .empty

/-- The patched documents that are not among the documents. -/
def missingDocKeys (matchingBatches : List MutationBatch)
    (existingDocs : SortedMap DocumentKey Document) : SortedSet DocumentKey :=
  .ofList <| ((matchingBatches.flatMap MutationBatch.mutations).filter fun mutation =>
    mutation.isPatch && (existingDocs.find mutation.key).isNone).map Mutation.key

/-- `AddMissingBaseDocuments` -/
def addMissingBaseDocuments (store : LocalStore) (matchingBatches : List MutationBatch)
    (existingDocs : SortedMap DocumentKey Document) : SortedMap DocumentKey Document :=
  (missingDocKeys matchingBatches existingDocs).toList.foldl
    (fun docs key =>
      docs.insertSome key ((store.remoteDocuments.find key).bind MaybeDocument.toDocument))
    existingDocs

/-- What one mutation does to the results of a collection query. -/
def mutateResults (query : Query) (results : SortedMap DocumentKey Document) (mutation : Mutation) :
    SortedMap DocumentKey Document :=
  if isImmediateParentOf query.path mutation.key then
    let baseDoc := (results.find mutation.key).map MaybeDocument.document
    results.replace mutation.key
      ((mutation.applyToLocalView baseDoc).bind MaybeDocument.toDocument)
  else results

/-- `GetDocumentsMatchingCollectionQuery` -/
def getDocumentsMatchingCollectionQuery (store : LocalStore) (query : Query) :
    Option (SortedMap DocumentKey Document) := do
  let matchingBatches ← store.mutationQueue.allMutationBatchesAffectingQuery query.path
  let results := store.addMissingBaseDocuments matchingBatches (store.getMatching query)
  let results :=
    (matchingBatches.flatMap MutationBatch.mutations).foldl (mutateResults query) results
  return results.filter fun _ doc => query.matches doc

/-- `GetDocumentsMatchingQuery`, for a document or for a collection -/
def getDocumentsMatchingQuery (store : LocalStore) (query : Query) :
    Option (SortedMap DocumentKey Document) :=
  if isDocumentKey query.path then do
    let doc ← store.getDocument query.path
    match doc.bind MaybeDocument.toDocument with
    | some document => return SortedMap.empty.insert document.key document
    | none => return .empty
  else store.getDocumentsMatchingCollectionQuery query

/-! ### Writes and their answers -/

/-- `WriteLocally`. None of the mutations has a base value to keep. -/
def writeLocally (store : LocalStore) (mutations : List Mutation) :
    Option (ℤ × MaybeDocumentMap × LocalStore) := do
  let existingDocuments ← store.getDocuments (.ofList (mutations.map Mutation.key))
  let (batch, queue) ← store.mutationQueue.addMutationBatch mutations
  return (batch.batchId, batch.applyToLocalDocumentSet existingDocuments,
    store.setMutationQueue queue)

/-- What `ApplyBatchResult` does for one document of the batch. -/
def applyResultTo (result : MutationBatchResult) (remoteDocuments : MaybeDocumentMap)
    (docKey : DocumentKey) : Option MaybeDocumentMap := do
  let remoteDoc := remoteDocuments.find docKey
  let ackVersion ← result.docVersions.find docKey
  if remoteDoc.all fun doc => doc.version < ackVersion then
    match result.batch.applyToRemoteDocument remoteDoc docKey result.versions with
    | some doc => return remoteDocuments.insert doc.key doc
    | none => if remoteDoc.isNone then return remoteDocuments else none
  else return remoteDocuments

/-- `ApplyBatchResult` -/
def applyBatchResult (store : LocalStore) (result : MutationBatchResult) : Option LocalStore := do
  let remoteDocuments ←
    result.batch.keys.toList.foldlM (applyResultTo result) store.remoteDocuments
  let queue ← store.mutationQueue.removeMutationBatch result.batch
  return { store with remoteDocuments }.setMutationQueue queue

/-- `AcknowledgeBatch` -/
def acknowledgeBatch (store : LocalStore) (result : MutationBatchResult) :
    Option (MaybeDocumentMap × LocalStore) := do
  let queue ← store.mutationQueue.acknowledgeBatch result.batch
  let store ← (store.setMutationQueue queue).applyBatchResult result
  store.mutationQueue.performConsistencyCheck
  let changes ← store.getDocuments result.batch.keys
  return (changes, store)

/-- `RejectBatch` -/
def rejectBatch (store : LocalStore) (batchId : ℤ) : Option (MaybeDocumentMap × LocalStore) := do
  let toReject ← (store.mutationQueue.lookupMutationBatch batchId).join
  let queue ← store.mutationQueue.removeMutationBatch toReject
  let store := store.setMutationQueue queue
  store.mutationQueue.performConsistencyCheck
  let changes ← store.getDocuments toReject.keys
  return (changes, store)

/-- `HandleUserChange` -/
def handleUserChange (store : LocalStore) (user : User) :
    Option (MaybeDocumentMap × LocalStore) := do
  let oldBatches := store.mutationQueue.queue
  let changed : LocalStore := { store with user }
  let changed := changed.setMutationQueue changed.mutationQueue.start
  let newBatches := changed.mutationQueue.queue
  let changedKeys := ((oldBatches ++ newBatches).flatMap MutationBatch.mutations).map Mutation.key
  let changes ← changed.getDocuments (.ofList changedKeys)
  return (changes, changed)

/-! ### What Watch sends -/

/-- What `ApplyRemoteEvent` does for one document, whose cached copy is `existingDoc`. -/
def applyUpdate (snapshotVersion : SnapshotVersion) (existingDoc : Option MaybeDocument)
    (state : MaybeDocumentMap × SortedMap DocumentKey (Option MaybeDocument)) (key : DocumentKey)
    (doc : MaybeDocument) :
    Option (MaybeDocumentMap × SortedMap DocumentKey (Option MaybeDocument)) :=
  match doc, doc.version with
  | .noDocument _ _ _, 0 =>
      -- A rejected limbo resolution makes this event up: access to the document is lost.
      some (state.1.erase key, state.2.insert key (some doc))
  | _, _ =>
      if existingDoc.all fun existing =>
          existing.version < doc.version
            || doc.version = existing.version && existing.hasPendingWrites then
        if snapshotVersion = 0 then none
        else some (state.1.insert doc.key doc, state.2.insert key (some doc))
      else some state

/-- The snapshot version after an event, which does not go back. -/
def nextRemoteSnapshotVersion (store : LocalStore) (snapshotVersion : SnapshotVersion) :
    Option SnapshotVersion :=
  if snapshotVersion = 0 then some store.lastRemoteSnapshotVersion
  else if store.lastRemoteSnapshotVersion ≤ snapshotVersion then some snapshotVersion
  else none

/-- `ApplyRemoteEvent` -/
def applyRemoteEvent (store : LocalStore) (event : RemoteEvent) :
    Option (MaybeDocumentMap × LocalStore) := do
  let (remoteDocuments, changedDocs) ← event.documentUpdates.entries.foldlM
    (fun state (key, doc) =>
      applyUpdate event.snapshotVersion (store.remoteDocuments.find key) state key doc)
    (store.remoteDocuments, .empty)
  let lastRemoteSnapshotVersion ← store.nextRemoteSnapshotVersion event.snapshotVersion
  let store := { store with remoteDocuments, lastRemoteSnapshotVersion }
  let changes ← store.getLocalViewOfDocuments changedDocs
  return (changes, store)

end LocalStore

end ProductivityApp.Firestore
