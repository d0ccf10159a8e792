import ProductivityApp.Firestore.Mutation

/-!
# Queries

`core/query.cc`, for the queries the app makes: the documents of one collection, or one document, in
an order, up to a limit. A query without an explicit order by key gets one, in the direction of the
last order it has, so the order of a query only leaves a document equal to itself.
-/

namespace ProductivityApp.Firestore

/-- The segments of a path to a document or to a collection. -/
abbrev ResourcePath := List String

/-- `IsDocumentKey` -/
def isDocumentKey (path : ResourcePath) : Bool := path.length % 2 = 0

/-- `IsImmediateParentOf` -/
def isImmediateParentOf (path : ResourcePath) (key : DocumentKey) : Bool :=
  path.isPrefixOf key && key.length = path.length + 1

inductive Direction where
  | ascending
  | descending
  deriving DecidableEq

/-- `ApplyTo` -/
def Direction.applyTo : Direction → Ordering → Ordering
  | .ascending, result => result
  | .descending, result => result.swap

/-- `KeyFieldPath` -/
def keyFieldPath : FieldPath := ["__name__"]

structure OrderBy where
  field : FieldPath
  direction : Direction
  deriving DecidableEq

/-- `Compare`. Both documents have the field, which the code asserts. -/
def OrderBy.compare (orderBy : OrderBy) (lhs rhs : Document) : Ordering :=
  orderBy.direction.applyTo <|
    if orderBy.field = keyFieldPath then compareContainer compareString lhs.key rhs.key
    else
      match lhs.field orderBy.field, rhs.field orderBy.field with
      | some value1, some value2 => value1.compareTo value2
      | none, some _ => .lt
      | some _, none => .gt
      | none, none => .eq

inductive LimitType where
  | none
  | first
  | last
  deriving DecidableEq

/-- What the backend is asked for -/
structure Target where
  path : ResourcePath
  orderBys : List OrderBy
  limit : Option ℕ
  deriving DecidableEq

structure Query where
  path : ResourcePath
  explicitOrderBys : List OrderBy
  limitType : LimitType
  limit : ℕ
  deriving DecidableEq

namespace Query

/-- `order_bys` -/
def orderBys (query : Query) : List OrderBy :=
  if query.explicitOrderBys.any fun orderBy => orderBy.field = keyFieldPath then
    query.explicitOrderBys
  else
    let lastDirection :=
      match query.explicitOrderBys.getLast? with
      | some orderBy => orderBy.direction
      | none => .ascending
    query.explicitOrderBys ++ [⟨keyFieldPath, lastDirection⟩]

/-- `ToTarget`. The last documents are the first ones in the opposite directions. -/
def toTarget (query : Query) : Target where
  path := query.path
  orderBys :=
    match query.limitType with
    | .last => query.orderBys.map fun orderBy =>
        { orderBy with
          direction :=
            match orderBy.direction with
            | .descending => .ascending
            | .ascending => .descending }
    | _ => query.orderBys
  limit :=
    match query.limitType with
    | .none => none
    | _ => some query.limit

/-- `operator==` -/
def equals (lhs rhs : Query) : Bool :=
  lhs.limitType = rhs.limitType && lhs.toTarget = rhs.toTarget

/-- `MatchesPathAndCollectionGroup` -/
def matchesPath (query : Query) (doc : Document) : Bool :=
  if isDocumentKey query.path then query.path = doc.key else isImmediateParentOf query.path doc.key

/-- `MatchesOrderBy` -/
def matchesOrderBy (query : Query) (doc : Document) : Bool :=
  query.explicitOrderBys.all fun orderBy =>
    orderBy.field = keyFieldPath || (doc.field orderBy.field).isSome

/-- `Matches` -/
def «matches» (query : Query) (doc : Document) : Bool :=
  query.matchesPath doc && query.matchesOrderBy doc

/-- `Comparator` -/
def comparator (query : Query) (doc1 doc2 : Document) : Ordering :=
  query.orderBys.foldr (fun orderBy rest => (orderBy.compare doc1 doc2).then rest) .eq

end Query

end ProductivityApp.Firestore
