import ProductivityApp.Firestore.LocalStore
import ProductivityApp.Proof.DocumentOrder

/-!
# Views

`view.cc` and `view_snapshot.cc`: the documents a query shows, kept up to date from the documents
that changed. A query with a limit only knows the documents inside it, so when one of them goes away
the view asks for a refill, which runs the query again. What changed is collected document by
document, a later change being merged with an earlier one.

A failed assertion is `none`, and so is a combination of changes that is not supported.
-/

namespace ProductivityApp.Firestore

/-- `DocumentSet`, with the comparator of a query -/
abbrev DocumentSet (query : Query) := Ranked query.ranking

/-! ### Changes -/

/-- `DocumentViewChange::Type` -/
inductive ChangeType where
  | removed
  | added
  | modified
  | metadata
  deriving DecidableEq

structure DocumentViewChange where
  document : Document
  type : ChangeType

/-- `GetDocumentViewChangeTypePosition` -/
def ChangeType.position : ChangeType → ℕ
  | .removed => 0
  | .added => 1
  | .modified => 2
  | .metadata => 2

/-- `DocumentViewChangeSet` -/
abbrev DocumentViewChangeSet := SortedMap DocumentKey DocumentViewChange

/-- `AddChange` -/
def DocumentViewChangeSet.addChange (changes : DocumentViewChangeSet)
    (change : DocumentViewChange) : Option DocumentViewChangeSet :=
  let key := change.document.key
  match changes.find key with
  | none => some (changes.insert key change)
  | some old =>
      match change.type, old.type with
      | .removed, .metadata | .modified, .metadata | .metadata, .metadata =>
          some (changes.insert key change)
      | .metadata, .added | .metadata, .modified =>
          some (changes.insert key ⟨change.document, old.type⟩)
      | .modified, .modified => some (changes.insert key ⟨change.document, .modified⟩)
      | .modified, .added => some (changes.insert key ⟨change.document, .added⟩)
      | .removed, .added => some (changes.erase key)
      | .removed, .modified => some (changes.insert key ⟨old.document, .removed⟩)
      | .added, .removed => some (changes.insert key ⟨change.document, .modified⟩)
      | _, _ => none

/-! ### Views -/

inductive SyncState where
  | none
  | «local»
  | synced
  deriving DecidableEq

inductive OnlineState where
  | unknown
  | online
  | offline
  deriving DecidableEq

structure ViewDocumentChanges (query : Query) where
  documentSet : DocumentSet query
  changeSet : DocumentViewChangeSet
  mutatedKeys : SortedSet DocumentKey
  needsRefill : Bool

structure TargetChange where
  current : Bool
  addedDocuments : SortedSet DocumentKey
  modifiedDocuments : SortedSet DocumentKey
  removedDocuments : SortedSet DocumentKey

structure ViewSnapshot (query : Query) where
  documents : DocumentSet query
  oldDocuments : DocumentSet query
  documentChanges : List DocumentViewChange
  mutatedKeys : SortedSet DocumentKey
  fromCache : Bool
  syncStateChanged : Bool
  excludesMetadataChanges : Bool

inductive LimboDocumentChange where
  | added (key : DocumentKey)
  | removed (key : DocumentKey)

structure View (query : Query) where
  documentSet : DocumentSet query
  syncedDocuments : SortedSet DocumentKey
  limboDocuments : SortedSet DocumentKey
  mutatedKeys : SortedSet DocumentKey
  current : Bool
  syncState : SyncState

/-- What `ApplyChanges` returns, with the view it leaves. -/
structure ViewChange (query : Query) where
  snapshot : Option (ViewSnapshot query)
  limboChanges : List LimboDocumentChange
  view : View query

/-- `ShouldWaitForSyncedDocument` -/
def shouldWaitForSyncedDocument (newDoc oldDoc : Document) : Bool :=
  oldDoc.hasLocalMutations && newDoc.hasCommittedMutations && !newDoc.hasLocalMutations

variable {query : Query}

/-- What a listener does with a change, if it goes by the changes of the snapshots. -/
def DocumentSet.replay (documents : DocumentSet query) (change : DocumentViewChange) :
    DocumentSet query :=
  match change.type with
  | .removed => documents.erase change.document.key
  | _ => documents.insert change.document

namespace ViewDocumentChanges

/-- The changes with a document shown as it is now. -/
def present (state : ViewDocumentChanges query) (doc : Document) : ViewDocumentChanges query :=
  { state with
    documentSet := state.documentSet.insert doc
    mutatedKeys :=
      if doc.hasLocalMutations then state.mutatedKeys.insert doc.key ()
      else state.mutatedKeys.erase doc.key }

/-- The changes with a document no longer shown. -/
def hide (state : ViewDocumentChanges query) (key : DocumentKey) : ViewDocumentChanges query :=
  { state with
    documentSet := state.documentSet.erase key
    mutatedKeys := state.mutatedKeys.erase key }

/-- The changes with one more reported. -/
def add (state : ViewDocumentChanges query) (change : DocumentViewChange) :
    Option (ViewDocumentChanges query) := do
  let changeSet ← state.changeSet.addChange change
  return { state with changeSet }

def refill (state : ViewDocumentChanges query) (needed : Bool) : ViewDocumentChanges query :=
  { state with needsRefill := state.needsRefill || needed }

end ViewDocumentChanges

/-- `last_doc_in_limit` -/
def lastDocInLimit (oldDocumentSet : DocumentSet query) : Option Document :=
  if query.limitType = .first && oldDocumentSet.size = query.limit then oldDocumentSet.last
  else none

/-- `first_doc_in_limit` -/
def firstDocInLimit (oldDocumentSet : DocumentSet query) : Option Document :=
  if query.limitType = .last && oldDocumentSet.size = query.limit then oldDocumentSet.first
  else none

/-- `outside_limit || outside_limit_to_last` -/
def outsideLimit (oldDocumentSet : DocumentSet query) (newDoc : Document) : Bool :=
  (lastDocInLimit oldDocumentSet).any (fun lastDoc => query.comparator newDoc lastDoc = .gt)
    || (firstDocInLimit oldDocumentSet).any fun firstDoc => query.comparator newDoc firstDoc = .lt

/-- What the view is told of a document: whether it matches, and its contents if it does. The code
asserts that it is at its own key. -/
def newDocument (query : Query) (key : DocumentKey) (maybeNewDoc : MaybeDocument) :
    Option (Option Document) :=
  match maybeNewDoc.toDocument with
  | some doc => if key = doc.key then some (some doc |>.filter query.matches) else none
  | none => some none

/-- What the loop of `ComputeDocumentChanges` does for one document. -/
def applyDocumentChange (oldDocumentSet : DocumentSet query)
    (oldMutatedKeys : SortedSet DocumentKey) (state : ViewDocumentChanges query)
    (key : DocumentKey) (maybeNewDoc : MaybeDocument) :
    Option (ViewDocumentChanges query) := do
  let oldDoc := oldDocumentSet.find key
  let newDoc ← newDocument query key maybeNewDoc
  let oldDocHadPendingMutations := oldDoc.isSome && oldMutatedKeys.contains key
  let newDocHasPendingMutations := newDoc.any fun doc =>
    doc.hasLocalMutations || oldMutatedKeys.contains key && doc.hasCommittedMutations
  match oldDoc, newDoc with
  | some oldDoc, some newDoc =>
      if oldDoc.data ≠ newDoc.data then
        if shouldWaitForSyncedDocument newDoc oldDoc then return state
        else
          let state ← state.add ⟨newDoc, .modified⟩
          -- the document moved behind the limit, and another may have to take its place
          return (state.present newDoc).refill (outsideLimit oldDocumentSet newDoc)
      else if oldDocHadPendingMutations ≠ newDocHasPendingMutations then
        let state ← state.add ⟨newDoc, .metadata⟩
        return state.present newDoc
      else return state
  | none, some newDoc =>
      let state ← state.add ⟨newDoc, .added⟩
      return state.present newDoc
  | some oldDoc, none =>
      let state ← state.add ⟨oldDoc, .removed⟩
      return (state.hide key).refill
        ((lastDocInLimit oldDocumentSet).isSome || (firstDocInLimit oldDocumentSet).isSome)
  | none, none => return state

/-- The document that is dropped to meet the limit. -/
def outermost (documentSet : DocumentSet query) : Option Document :=
  if query.limitType = .first then documentSet.last else documentSet.first

/-- As many documents are dropped as there are too many. -/
def dropDocuments : ℕ → ViewDocumentChanges query → Option (ViewDocumentChanges query)
  | 0, state => some state
  | count + 1, state => do
      let oldDoc ← outermost state.documentSet
      let state ← state.add ⟨oldDoc, .removed⟩
      dropDocuments count (state.hide oldDoc.key)

/-- How many documents there are too many. -/
def overLimit (documentSet : DocumentSet query) : ℕ :=
  if query.limitType = .none then 0 else documentSet.size - query.limit

namespace View

/-- `View(query, remote_documents)` -/
def initial (remoteDocuments : SortedSet DocumentKey) : View query where
  documentSet := .empty
  syncedDocuments := remoteDocuments
  limboDocuments := .empty
  mutatedKeys := .empty
  current := false
  syncState := .none

/-- The changes a view starts from: none, or what an earlier pass found. -/
def startChanges (view : View query) :
    Option (ViewDocumentChanges query) → ViewDocumentChanges query
  | some previousChanges => { previousChanges with needsRefill := false }
  | none => ⟨view.documentSet, .empty, view.mutatedKeys, false⟩

/-- `ComputeDocumentChanges` -/
def computeDocumentChanges (view : View query) (docChanges : MaybeDocumentMap)
    (previousChanges : Option (ViewDocumentChanges query)) :
    Option (ViewDocumentChanges query) := do
  let start := view.startChanges previousChanges
  let state ← docChanges.entries.foldlM
    (fun state entry =>
      applyDocumentChange start.documentSet view.mutatedKeys state entry.1 entry.2) start
  let state ← dropDocuments (overLimit state.documentSet) state
  if state.needsRefill && previousChanges.isSome then none else return state

/-- `ApplyTargetChange` -/
def applyTargetChange (view : View query) : Option TargetChange → Option (View query)
  | some targetChange =>
      let added := targetChange.addedDocuments.toList.foldl
        (fun set key => set.insert key ()) view.syncedDocuments
      if targetChange.modifiedDocuments.toList.all added.contains then
        some { view with
          syncedDocuments :=
            targetChange.removedDocuments.toList.foldl (fun set key => set.erase key) added
          current := targetChange.current }
      else none
  | none => some view

/-- `ShouldBeInLimbo` -/
def shouldBeInLimbo (view : View query) (key : DocumentKey) : Bool :=
  !view.syncedDocuments.contains key
    && (view.documentSet.find key).any fun doc => !doc.hasLocalMutations

/-- `UpdateLimboDocuments` -/
def updateLimboDocuments (view : View query) : List LimboDocumentChange × View query :=
  if view.current then
    let limboDocuments : SortedSet DocumentKey :=
      .ofList ((view.documentSet.elements.map Document.key).filter view.shouldBeInLimbo)
    let removed := view.limboDocuments.toList.filter fun key => !limboDocuments.contains key
    let added := limboDocuments.toList.filter fun key => !view.limboDocuments.contains key
    (removed.map .removed ++ added.map .added, { view with limboDocuments })
  else ([], view)

/-- The order changes are reported in: by type and then by the comparator. -/
def changeLe (query : Query) (lhs rhs : DocumentViewChange) : Bool :=
  lhs.type.position < rhs.type.position
    || lhs.type.position = rhs.type.position
      && (query.comparator lhs.document rhs.document).isLE

/-- `GetChanges`, in the order they are reported in -/
def sortedChanges (docChanges : ViewDocumentChanges query) : List DocumentViewChange :=
  (docChanges.changeSet.entries.map Prod.snd).mergeSort (changeLe query)

/-- The view with its limbo documents and its sync state as they are now. -/
def settle (view : View query) : List LimboDocumentChange × View query :=
  let update := view.updateLimboDocuments
  let synced := update.2.limboDocuments.entries.isEmpty && update.2.current
  (update.1, { update.2 with syncState := if synced then .synced else .local })

/-- What the changed view tells, if there is anything to tell. -/
def snapshot (oldView newView : View query) (docChanges : ViewDocumentChanges query) :
    Option (ViewSnapshot query) :=
  let changes := sortedChanges docChanges
  let syncStateChanged := newView.syncState ≠ oldView.syncState
  if changes.isEmpty && !syncStateChanged then none
  else
    some
      { documents := docChanges.documentSet
        oldDocuments := oldView.documentSet
        documentChanges := changes
        mutatedKeys := docChanges.mutatedKeys
        fromCache := newView.syncState = .local
        syncStateChanged
        excludesMetadataChanges := false }

/-- `ApplyChanges` -/
def applyChanges (view : View query) (docChanges : ViewDocumentChanges query)
    (targetChange : Option TargetChange) : Option (ViewChange query) := do
  if docChanges.needsRefill then none
  else
    let changed : View query :=
      { view with documentSet := docChanges.documentSet, mutatedKeys := docChanges.mutatedKeys }
    let changed ← changed.applyTargetChange targetChange
    let settled := changed.settle
    return ⟨view.snapshot settled.2 docChanges, settled.1, settled.2⟩

/-- `ApplyOnlineStateChange` -/
def applyOnlineStateChange (view : View query) (onlineState : OnlineState) :
    Option (ViewChange query) :=
  if view.current && onlineState = .offline then
    let view := { view with current := false }
    view.applyChanges ⟨view.documentSet, .empty, view.mutatedKeys, false⟩ none
  else some ⟨none, [], view⟩

/-- The query is run, and the view computes what changes. -/
def runQuery (view : View query) (store : LocalStore)
    (previousChanges : Option (ViewDocumentChanges query)) :
    Option (ViewDocumentChanges query) := do
  let documents ← store.getDocumentsMatchingQuery query
  view.computeDocumentChanges (documents.mapValues fun _ doc => .document doc) previousChanges

/-- What changes in a view when documents of the store have changed. -/
def computeChanges (view : View query) (store : LocalStore) (changes : MaybeDocumentMap) :
    Option (ViewDocumentChanges query) := do
  let viewDocChanges ← view.computeDocumentChanges changes none
  if viewDocChanges.needsRefill then view.runQuery store (some viewDocChanges)
  else return viewDocChanges

/-- What `EmitNewSnapshotsAndNotifyLocalStore` does for one view. -/
def update (view : View query) (store : LocalStore) (changes : MaybeDocumentMap)
    (targetChange : Option TargetChange) : Option (ViewChange query) := do
  let viewDocChanges ← view.computeChanges store changes
  view.applyChanges viewDocChanges targetChange

/-- What `InitializeViewAndComputeSnapshot` does for a view of its own target. -/
def listen (store : LocalStore) (remoteKeys : SortedSet DocumentKey) :
    Option (ViewChange query) := do
  let view : View query := initial remoteKeys
  let viewDocChanges ← view.runQuery store none
  view.applyChanges viewDocChanges none

end View

end ProductivityApp.Firestore
