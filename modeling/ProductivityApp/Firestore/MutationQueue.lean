import Mathlib.Data.List.Lex
import Mathlib.Data.Prod.Lex
import ProductivityApp.Firestore.Mutation

/-!
# The mutation queue

`memory_mutation_queue.cc`: the batches a user has written and the server has not answered, in the
order they were written, with an index from the documents to the batches that change them. A batch
is found by its distance from the first one. Where the code asserts, the model is `none` when the
assertion fails.
-/

namespace ProductivityApp.Firestore

/-- `DocumentKeyReference`, in the order `ByKey` -/
abbrev DocumentKeyReference := DocumentKey ×ₗ ℤ

structure MutationQueue where
  queue : List MutationBatch
  nextBatchId : ℤ
  batchesByDocumentKey : SortedSet DocumentKeyReference

namespace MutationQueue

def isEmpty (q : MutationQueue) : Bool := q.queue.isEmpty

/-- `Start` -/
def start (q : MutationQueue) : MutationQueue :=
  if q.isEmpty then { q with nextBatchId := 1 } else q

/-- A queue nothing was written to. -/
def initial : MutationQueue := ⟨[], 1, .empty⟩

/-- `AcknowledgeBatch` -/
def acknowledgeBatch (q : MutationQueue) (batch : MutationBatch) : Option MutationQueue :=
  match q.queue with
  | [] => none
  | check :: _ => if batch.batchId = check.batchId then some q else none

/-- The references of a batch to the documents it changes. -/
def references (batch : MutationBatch) : List DocumentKeyReference :=
  batch.mutations.map fun mutation => toLex (mutation.key, batch.batchId)

/-- The queue with a batch at its end. -/
def append (q : MutationQueue) (batch : MutationBatch) : MutationQueue where
  queue := q.queue ++ [batch]
  nextBatchId := q.nextBatchId + 1
  batchesByDocumentKey :=
    (references batch).foldl (fun set reference => set.insert reference ()) q.batchesByDocumentKey

/-- `AddMutationBatch` -/
def addMutationBatch (q : MutationQueue) (mutations : List Mutation) :
    Option (MutationBatch × MutationQueue) :=
  if mutations.isEmpty then none
  else
    let batch : MutationBatch := ⟨q.nextBatchId, mutations⟩
    match q.queue.getLast? with
    | some prior => if prior.batchId < batch.batchId then some (batch, q.append batch) else none
    | none => some (batch, q.append batch)

/-- `RemoveMutationBatch` -/
def removeMutationBatch (q : MutationQueue) (batch : MutationBatch) : Option MutationQueue :=
  match q.queue with
  | [] => none
  | head :: queue =>
      if head.batchId = batch.batchId then
        some { q with
          queue
          batchesByDocumentKey :=
            (references batch).foldl (fun set reference => set.erase reference)
              q.batchesByDocumentKey }
      else none

/-- `IndexOfBatchId` -/
def indexOfBatchId (q : MutationQueue) (batchId : ℤ) : ℤ :=
  match q.queue with
  | [] => 0
  | firstBatch :: _ => batchId - firstBatch.batchId

/-- `LookupMutationBatch`, whose result may be no batch -/
def lookupMutationBatch (q : MutationQueue) (batchId : ℤ) : Option (Option MutationBatch) :=
  if q.indexOfBatchId batchId < 0 then some none
  else
    match q.queue[(q.indexOfBatchId batchId).toNat]? with
    | none => some none
    | some batch => if batch.batchId = batchId then some (some batch) else none

/-- `AllMutationBatchesAffectingDocumentKey` -/
def allMutationBatchesAffectingDocumentKey (q : MutationQueue) (key : DocumentKey) :
    Option (List MutationBatch) :=
  ((q.batchesByDocumentKey.valuesFrom (toLex (key, 0))).takeWhile fun reference =>
      (ofLex reference).1 = key).mapM fun reference =>
    (q.lookupMutationBatch (ofLex reference).2).join

/-- `AllMutationBatchesWithIds` -/
def allMutationBatchesWithIds (q : MutationQueue) (batchIds : SortedSet ℤ) :
    Option (List MutationBatch) := do
  let found ← batchIds.toList.mapM q.lookupMutationBatch
  return found.filterMap id

/-- `AllMutationBatchesAffectingDocumentKeys` -/
def allMutationBatchesAffectingDocumentKeys (q : MutationQueue) (keys : SortedSet DocumentKey) :
    Option (List MutationBatch) :=
  q.allMutationBatchesWithIds <| .ofList <| keys.toList.flatMap fun key =>
    ((q.batchesByDocumentKey.valuesFrom (toLex (key, 0))).takeWhile fun reference =>
      (ofLex reference).1 = key).map fun reference => (ofLex reference).2

/-- `AllMutationBatchesAffectingQuery`, for a query on the collection at a path -/
def allMutationBatchesAffectingQuery (q : MutationQueue) (path : List String) :
    Option (List MutationBatch) :=
  q.allMutationBatchesWithIds <| .ofList <|
    (((q.batchesByDocumentKey.valuesFrom (toLex (path ++ [""], 0))).takeWhile fun reference =>
        path.isPrefixOf (ofLex reference).1).filter fun reference =>
      (ofLex reference).1.length = path.length + 1).map fun reference => (ofLex reference).2

/-- `PerformConsistencyCheck` -/
def performConsistencyCheck (q : MutationQueue) : Option Unit :=
  if q.isEmpty && !q.batchesByDocumentKey.entries.isEmpty then none else some ()

end MutationQueue

end ProductivityApp.Firestore
