import Mathlib.Data.List.Lex
import Mathlib.Data.Prod.Lex
import Mathlib.Data.String.Basic
import ProductivityApp.Firestore.Number

/-!
# Field values

`model/field_value.cc` of the Firestore client: what a field can hold, when two values are equal and
how they are ordered. Values of different types are ordered by type, except that integers and
doubles are one type in the order and so are the two kinds of timestamps; arrays and maps are
compared entry by entry.

Strings are compared byte by byte, which for UTF-8 is the order of their characters. Coordinates are
rationals, since nothing tells a negative zero from a zero there. A server timestamp is only its
local write time: neither equality nor order see the value it replaces, and the app reads null.
-/

namespace ProductivityApp.Firestore

structure Timestamp where
  seconds : ℤ
  nanoseconds : ℤ
  deriving DecidableEq

structure GeoPoint where
  latitude : ℚ
  longitude : ℚ
  deriving DecidableEq

structure DatabaseId where
  projectId : String
  databaseId : String
  deriving DecidableEq

/-- The segments of the path to a document. -/
abbrev DocumentKey := List String

/-- A value. The entries of a map are kept in the order of their names. -/
inductive FieldValue where
  | null
  | boolean (value : Bool)
  | integer (value : Int64)
  | double (value : Binary64)
  | timestamp (value : Timestamp)
  | serverTimestamp (localWriteTime : Timestamp)
  | string (value : String)
  | blob (bytes : List UInt8)
  | reference (database : DatabaseId) (key : DocumentKey)
  | geoPoint (value : GeoPoint)
  | array (values : List FieldValue)
  | object (entries : List (String × FieldValue))

/-- `FieldValue::Type`, by its place in the enumeration -/
def FieldValue.type : FieldValue → ℕ
  | .null => 0
  | .boolean _ => 1
  | .integer _ => 2
  | .double _ => 3
  | .timestamp _ => 4
  | .serverTimestamp _ => 5
  | .string _ => 6
  | .blob _ => 7
  | .reference _ _ => 8
  | .geoPoint _ => 9
  | .array _ => 10
  | .object _ => 11

/-! ### Order -/

/-- `DefaultComparator::Compare` -/
def defaultCompare {α : Type} (lt : α → α → Bool) (left right : α) : Ordering :=
  if lt left right then .lt else if lt right left then .gt else .eq

/-- `Comparator<std::string>::Compare` -/
def compareString (left right : String) : Ordering := cmp left right

/-- `util::CompareContainer` -/
def compareContainer {α : Type} (compare : α → α → Ordering) : List α → List α → Ordering
  | [], [] => .eq
  | [], _ :: _ => .lt
  | _ :: _, [] => .gt
  | left :: lefts, right :: rights =>
      (compare left right).then (compareContainer compare lefts rights)

def Timestamp.lt (left right : Timestamp) : Bool :=
  left.seconds < right.seconds
    || left.seconds = right.seconds && left.nanoseconds < right.nanoseconds

def GeoPoint.lt (left right : GeoPoint) : Bool :=
  if left.latitude = right.latitude then left.longitude < right.longitude
  else left.latitude < right.latitude

def DatabaseId.compareTo (left right : DatabaseId) : Ordering :=
  (compareString left.projectId right.projectId).then
    (compareString left.databaseId right.databaseId)

namespace FieldValue

mutual

/-- `CompareTo`. Types that are not comparable are ordered by their place in the enumeration. -/
def compareTo : FieldValue → FieldValue → Ordering
  | .null, .null => .eq
  | .boolean left, .boolean right => defaultCompare (fun left right => !left && right) left right
  | .integer left, .integer right => compareInt64 left right
  | .double left, .double right => compareDouble left right
  | .integer left, .double right => (compareMixedNumber right left).swap
  | .double left, .integer right => compareMixedNumber left right
  | .timestamp left, .timestamp right => defaultCompare Timestamp.lt left right
  | .timestamp _, .serverTimestamp _ => .lt
  | .serverTimestamp left, .serverTimestamp right => defaultCompare Timestamp.lt left right
  | .serverTimestamp _, .timestamp _ => .gt
  | .string left, .string right => compareString left right
  | .blob left, .blob right =>
      compareContainer (defaultCompare fun left right => left < right) left right
  | .reference leftDatabase leftKey, .reference rightDatabase rightKey =>
      (leftDatabase.compareTo rightDatabase).then (compareContainer compareString leftKey rightKey)
  | .geoPoint left, .geoPoint right => defaultCompare GeoPoint.lt left right
  | .array left, .array right => compareArray left right
  | .object left, .object right => compareObject left right
  | left, right => defaultCompare (fun left right => left < right) left.type right.type
termination_by structural left => left

def compareArray : List FieldValue → List FieldValue → Ordering
  | [], [] => .eq
  | [], _ :: _ => .lt
  | _ :: _, [] => .gt
  | left :: lefts, right :: rights => (compareTo left right).then (compareArray lefts rights)
termination_by structural left => left

/-- Entries are compared as pairs, the name before the value. -/
def compareObject : List (String × FieldValue) → List (String × FieldValue) → Ordering
  | [], [] => .eq
  | [], _ :: _ => .lt
  | _ :: _, [] => .gt
  | (leftName, left) :: lefts, (rightName, right) :: rights =>
      ((compareString leftName rightName).then (compareTo left right)).then
        (compareObject lefts rights)
termination_by structural left => left

end

/-! ### Equality -/

mutual

/-- `Equals`. An integer and a double are not equal, and a negative zero is not a zero. -/
def equals : FieldValue → FieldValue → Bool
  | .null, .null => true
  | .boolean left, .boolean right => left = right
  | .integer left, .integer right => left = right
  | .double left, .double right => left = right
  | .timestamp left, .timestamp right => left = right
  | .serverTimestamp left, .serverTimestamp right => left = right
  | .string left, .string right => left = right
  | .blob left, .blob right => left = right
  | .reference leftDatabase leftKey, .reference rightDatabase rightKey =>
      leftDatabase = rightDatabase && leftKey = rightKey
  | .geoPoint left, .geoPoint right => left = right
  | .array left, .array right => equalsArray left right
  | .object left, .object right => equalsObject left right
  | _, _ => false
termination_by structural left => left

def equalsArray : List FieldValue → List FieldValue → Bool
  | [], [] => true
  | left :: lefts, right :: rights => equals left right && equalsArray lefts rights
  | _, _ => false
termination_by structural left => left

def equalsObject : List (String × FieldValue) → List (String × FieldValue) → Bool
  | [], [] => true
  | (leftName, left) :: lefts, (rightName, right) :: rights =>
      (leftName = rightName && equals left right) && equalsObject lefts rights
  | _, _ => false
termination_by structural left => left

end

mutual

theorem equals_iff (a b : FieldValue) : a.equals b = true ↔ a = b := by
  cases a <;> cases b
  case array.array as bs => simp [equals, equalsArray_iff as bs]
  case object.object as bs => simp [equals, equalsObject_iff as bs]
  all_goals simp [equals]

theorem equalsArray_iff (as bs : List FieldValue) : equalsArray as bs = true ↔ as = bs := by
  cases as <;> cases bs
  case cons.cons a as b bs => simp [equalsArray, equals_iff a b, equalsArray_iff as bs]
  all_goals simp [equalsArray]

theorem equalsObject_iff (as bs : List (String × FieldValue)) :
    equalsObject as bs = true ↔ as = bs := by
  cases as <;> cases bs
  case cons.cons a as b bs =>
    obtain ⟨m, a⟩ := a
    obtain ⟨n, b⟩ := b
    simp [equalsObject, equals_iff a b, equalsObject_iff as bs]
  all_goals simp [equalsObject]

end

instance : DecidableEq FieldValue := fun a b => decidable_of_iff _ (equals_iff a b)

end FieldValue

end ProductivityApp.Firestore
