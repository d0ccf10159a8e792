import ProductivityApp.Firestore.View
import ProductivityApp.Lib.Run

/-!
# The sync engine

`sync_engine.cc`: the local store and the views of the queries that are listened to. Whatever
changes the store, a write, its answer, an event from Watch or another user, every view is told of
the changed documents, and what it has to tell is sent on.

A query is listened to with a target that is new. The query engine has no previous results of such a
target to start from, so it scans the collection, and no other query shares the target. Documents
stay in the cache: none is collected as garbage. The callbacks of writes, the targets of limbo
documents and the remote store, which puts the events in their order, are left out. A failed
assertion is `none`, and nothing happens after it.
-/

namespace ProductivityApp.Firestore

/-- `QueryView`, with the snapshot that was last sent of it and the documents a listener has that
goes by the changes of the snapshots -/
structure QueryView where
  query : Query
  view : View query
  snapshot : ViewSnapshot query
  replayed : DocumentSet query

/-- What Watch says of the targets -/
abbrev TargetChanges := Target → Option TargetChange

/-- No event from Watch -/
def noTargetChanges : TargetChanges := fun _ => none

structure SyncEngine where
  localStore : LocalStore
  /-- The targets that were allocated -/
  targets : List Target
  queryViews : List QueryView

inductive SyncEvent where
  | listen (query : Query)
  | stopListening (query : Query)
  | writeMutations (mutations : List Mutation)
  | handleSuccessfulWrite (result : MutationBatchResult)
  | handleRejectedWrite (batchId : ℤ)
  | applyRemoteEvent (event : RemoteEvent) (targetChanges : TargetChanges)
  | handleCredentialChange (user : User)
  | handleOnlineStateChange (onlineState : OnlineState)

/-- The view after a change, and its snapshot if there is one. -/
def QueryView.apply (queryView : QueryView) (change : ViewChange queryView.query) : QueryView :=
  match change.snapshot with
  | none => { queryView with view := change.view }
  | some snapshot =>
      { queryView with
        view := change.view
        snapshot
        replayed := snapshot.documentChanges.foldl DocumentSet.replay queryView.replayed }

/-- A view that is new, with its first snapshot. -/
def QueryView.new {query : Query} (view : View query) (snapshot : ViewSnapshot query) :
    QueryView where
  query
  view
  snapshot
  replayed := snapshot.documentChanges.foldl DocumentSet.replay .empty

namespace SyncEngine

def initial (user : User) : SyncEngine := ⟨.initial user, [], []⟩

/-- A query is listened to. -/
def listensTo (engine : SyncEngine) (query : Query) : Bool :=
  engine.queryViews.any fun queryView => queryView.query.equals query

/-- `EmitNewSnapshotsAndNotifyLocalStore` -/
def emitNewSnapshotsAndNotifyLocalStore (engine : SyncEngine) (changes : MaybeDocumentMap)
    (targetChanges : TargetChanges) : Option SyncEngine := do
  let queryViews ← engine.queryViews.mapM fun queryView => do
    let change ← queryView.view.update engine.localStore changes
      (targetChanges queryView.query.toTarget)
    return queryView.apply change
  return { engine with queryViews }

/-- `Listen`, with a new target, for which the target cache has no keys yet -/
def listen (engine : SyncEngine) (query : Query) : Option SyncEngine := do
  if engine.listensTo query then none
  else
    let change : ViewChange query ← View.listen engine.localStore .empty
    let snapshot ← change.snapshot
    return { engine with
      targets := engine.targets ++ [query.toTarget]
      queryViews := engine.queryViews ++ [.new change.view snapshot] }

/-- `StopListening` -/
def stopListening (engine : SyncEngine) (query : Query) : Option SyncEngine :=
  if engine.listensTo query then
    some { engine with
      queryViews := engine.queryViews.filter fun queryView => !queryView.query.equals query }
  else none

/-- The store has changed, and the views are told. -/
def emitChanges (engine : SyncEngine) (targetChanges : TargetChanges)
    (changed : MaybeDocumentMap × LocalStore) : Option SyncEngine :=
  let engine := { engine with localStore := changed.2 }
  engine.emitNewSnapshotsAndNotifyLocalStore changed.1 targetChanges

/-- `WriteMutations` -/
def writeMutations (engine : SyncEngine) (mutations : List Mutation) : Option SyncEngine := do
  let (_, changes, localStore) ← engine.localStore.writeLocally mutations
  engine.emitChanges noTargetChanges (changes, localStore)

/-- `HandleSuccessfulWrite` -/
def handleSuccessfulWrite (engine : SyncEngine) (result : MutationBatchResult) :
    Option SyncEngine := do
  engine.emitChanges noTargetChanges (← engine.localStore.acknowledgeBatch result)

/-- `HandleRejectedWrite` -/
def handleRejectedWrite (engine : SyncEngine) (batchId : ℤ) : Option SyncEngine := do
  engine.emitChanges noTargetChanges (← engine.localStore.rejectBatch batchId)

/-- `ApplyRemoteEvent` -/
def applyRemoteEvent (engine : SyncEngine) (event : RemoteEvent) (targetChanges : TargetChanges) :
    Option SyncEngine := do
  engine.emitChanges targetChanges (← engine.localStore.applyRemoteEvent event)

/-- `HandleCredentialChange` -/
def handleCredentialChange (engine : SyncEngine) (user : User) : Option SyncEngine := do
  if engine.localStore.user = user then return engine
  else engine.emitChanges noTargetChanges (← engine.localStore.handleUserChange user)

/-- `HandleOnlineStateChange`, which asserts that no limbo document is affected -/
def handleOnlineStateChange (engine : SyncEngine) (onlineState : OnlineState) :
    Option SyncEngine := do
  let queryViews ← engine.queryViews.mapM fun queryView => do
    let change ← queryView.view.applyOnlineStateChange onlineState
    if change.limboChanges.isEmpty then return queryView.apply change else none
  return { engine with queryViews }

/-- What the engine does at an event. -/
def handle (engine : SyncEngine) : SyncEvent → Option SyncEngine
  | .listen query => engine.listen query
  | .stopListening query => engine.stopListening query
  | .writeMutations mutations => engine.writeMutations mutations
  | .handleSuccessfulWrite result => engine.handleSuccessfulWrite result
  | .handleRejectedWrite batchId => engine.handleRejectedWrite batchId
  | .applyRemoteEvent event targetChanges => engine.applyRemoteEvent event targetChanges
  | .handleCredentialChange user => engine.handleCredentialChange user
  | .handleOnlineStateChange onlineState => engine.handleOnlineStateChange onlineState

/-- A step of a client whose assertions may have failed. -/
def step (engine : Option SyncEngine) (e : SyncEvent) : Option SyncEngine :=
  engine.bind fun engine => engine.handle e

end SyncEngine

end ProductivityApp.Firestore
