import ProductivityApp.Firestore.ObjectValue

/-!
# Documents and mutations

What the client knows of a document, and the writes that change it: `maybe_document.h`, its three
kinds, `precondition.cc`, the mutations that set, patch and delete, and the batches they are sent
in. A mutation is applied in two ways. To the local view it is applied while it is pending, if its
precondition holds; to the remote document once the server has accepted it.

A version is a point in time. Only the order of versions and the earliest of them, which stands for
none, matter.
-/

namespace ProductivityApp.Firestore

/-- `SnapshotVersion`, with 0 for `None` -/
abbrev SnapshotVersion := ℕ

inductive DocumentState where
  | localMutations
  | committedMutations
  | synced
  deriving DecidableEq

structure Document where
  data : ObjectValue
  key : DocumentKey
  version : SnapshotVersion
  documentState : DocumentState

namespace Document

def hasLocalMutations (document : Document) : Bool := document.documentState = .localMutations

def hasCommittedMutations (document : Document) : Bool :=
  document.documentState = .committedMutations

def hasPendingWrites (document : Document) : Bool :=
  document.hasLocalMutations || document.hasCommittedMutations

/-- `field` -/
def field (document : Document) (path : FieldPath) : Option FieldValue := document.data.get path

end Document

inductive MaybeDocument where
  | document (document : Document)
  | noDocument (key : DocumentKey) (version : SnapshotVersion) (hasCommittedMutations : Bool)
  | unknownDocument (key : DocumentKey) (version : SnapshotVersion)

namespace MaybeDocument

def key : MaybeDocument → DocumentKey
  | .document doc => doc.key
  | .noDocument key _ _ => key
  | .unknownDocument key _ => key

def version : MaybeDocument → SnapshotVersion
  | .document doc => doc.version
  | .noDocument _ version _ => version
  | .unknownDocument _ version => version

def hasPendingWrites : MaybeDocument → Bool
  | .document doc => doc.hasPendingWrites
  | .noDocument _ _ hasCommittedMutations => hasCommittedMutations
  | .unknownDocument _ _ => true

/-- `Document(maybe_doc)`, where `is_document()` -/
def toDocument : MaybeDocument → Option Document
  | .document doc => some doc
  | _ => none

end MaybeDocument

/-! ### Mutations -/

inductive Precondition where
  | none
  | exists (exists_ : Bool)
  | updateTime (time : SnapshotVersion)

/-- `IsValidFor` -/
def Precondition.isValidFor (precondition : Precondition) (maybeDoc : Option MaybeDocument) :
    Bool :=
  match precondition with
  | .updateTime time =>
      match maybeDoc.bind MaybeDocument.toDocument with
      | some doc => doc.version = time
      | .none => false
  | .exists exists_ => exists_ = (maybeDoc.bind MaybeDocument.toDocument).isSome
  | .none => true

/-- The mutations that are made of plain data. -/
inductive Mutation where
  | set (key : DocumentKey) (value : ObjectValue) (precondition : Precondition)
  | patch (key : DocumentKey) (value : ObjectValue) (mask : FieldMask) (precondition : Precondition)
  | delete (key : DocumentKey) (precondition : Precondition)

namespace Mutation

def key : Mutation → DocumentKey
  | .set key _ _ => key
  | .patch key _ _ _ => key
  | .delete key _ => key

def precondition : Mutation → Precondition
  | .set _ _ precondition => precondition
  | .patch _ _ _ precondition => precondition
  | .delete _ precondition => precondition

def isPatch : Mutation → Bool
  | .patch _ _ _ _ => true
  | _ => false

/-- `GetPostMutationVersion` -/
def getPostMutationVersion (maybeDoc : Option MaybeDocument) : SnapshotVersion :=
  match maybeDoc.bind MaybeDocument.toDocument with
  | some doc => doc.version
  | none => 0

/-- `PatchDocument` -/
def patchDocument (value : ObjectValue) (mask : FieldMask) (maybeDoc : Option MaybeDocument) :
    ObjectValue :=
  match maybeDoc.bind MaybeDocument.toDocument with
  | some doc => ObjectValue.patchObject value mask doc.data
  | none => ObjectValue.patchObject value mask []

/-- `ApplyToRemoteDocument`, with the version of the result the server answered -/
def applyToRemoteDocument (mutation : Mutation) (maybeDoc : Option MaybeDocument)
    (version : SnapshotVersion) : MaybeDocument :=
  match mutation with
  | .set key value _ => .document ⟨value, key, version, .committedMutations⟩
  | .patch key value mask precondition =>
      -- The server accepted the mutation, so a document that fails its precondition is not the one
      -- the server has.
      if precondition.isValidFor maybeDoc then
        .document ⟨patchDocument value mask maybeDoc, key, version, .committedMutations⟩
      else .unknownDocument key version
  | .delete key _ => .noDocument key version true

/-- `ApplyToLocalView` -/
def applyToLocalView (mutation : Mutation) (maybeDoc : Option MaybeDocument) :
    Option MaybeDocument :=
  if mutation.precondition.isValidFor maybeDoc then
    match mutation with
    | .set key value _ =>
        some (.document ⟨value, key, getPostMutationVersion maybeDoc, .localMutations⟩)
    | .patch key value mask _ =>
        some (.document ⟨patchDocument value mask maybeDoc, key, getPostMutationVersion maybeDoc,
          .localMutations⟩)
    | .delete key _ => some (.noDocument key 0 false)
  else maybeDoc

end Mutation

/-! ### Batches -/

structure MutationBatch where
  batchId : ℤ
  mutations : List Mutation

namespace MutationBatch

/-- `keys` -/
def keys (batch : MutationBatch) : SortedSet DocumentKey :=
  .ofList (batch.mutations.map Mutation.key)

/-- `ApplyToRemoteDocument`, with one version for each mutation -/
def applyToRemoteDocument (batch : MutationBatch) (maybeDoc : Option MaybeDocument)
    (key : DocumentKey) (versions : List SnapshotVersion) : Option MaybeDocument :=
  (batch.mutations.zip versions).foldl
    (fun maybeDoc (mutation, version) =>
      if mutation.key = key then some (mutation.applyToRemoteDocument maybeDoc version)
      else maybeDoc)
    maybeDoc

/-- `ApplyToLocalDocument` -/
def applyToLocalDocument (batch : MutationBatch) (maybeDoc : Option MaybeDocument)
    (key : DocumentKey) : Option MaybeDocument :=
  batch.mutations.foldl
    (fun maybeDoc mutation =>
      if mutation.key = key then mutation.applyToLocalView maybeDoc else maybeDoc)
    maybeDoc

end MutationBatch

end ProductivityApp.Firestore
