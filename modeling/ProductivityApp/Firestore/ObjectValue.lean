import ProductivityApp.Firestore.FieldValue
import ProductivityApp.Lib.SortedMap

/-!
# Objects and patches

The fields of a document are a map whose values may be maps again, and a field path names a place in
it. A patch carries an object and a mask: every path of the mask is set to what the object holds
there, or deleted when it holds nothing there.
-/

namespace ProductivityApp.Firestore

/-- The segments of the path to a field. -/
abbrev FieldPath := List String

/-- The map inside a value of type `Object`. -/
abbrev ObjectValue := List (String × FieldValue)

/-- The paths of a mask, in the order of the set they are kept in. -/
abbrev FieldMask := List FieldPath

/-- What is found when a path is followed from a value. -/
def FieldValue.get : FieldValue → FieldPath → Option FieldValue
  | value, [] => some value
  | .object entries, name :: path => (entries.lookup name).bind fun value => value.get path
  | _, _ :: _ => none

namespace ObjectValue

/-- `Get` -/
def get (object : ObjectValue) (path : FieldPath) : Option FieldValue :=
  (FieldValue.object object).get path

/-- The object at a name, an empty one where there is none. -/
def child (object : ObjectValue) (name : String) : ObjectValue :=
  match object.lookup name with
  | some (.object entries) => entries
  | _ => []

/-- `Set`. The path is not empty, which the code asserts. -/
def set : ObjectValue → FieldPath → FieldValue → ObjectValue
  | object, [], _ => object
  | object, [name], value => Entries.insert name value object
  | object, name :: next :: path, value =>
      Entries.insert name (.object (set (child object name) (next :: path) value)) object

/-- `Delete`. Nothing is made an object for the sake of a deletion. -/
def delete : ObjectValue → FieldPath → ObjectValue
  | object, [] => object
  | object, [name] => Entries.erase name object
  | object, name :: next :: path =>
      match object.lookup name with
      | some (.object entries) =>
          Entries.insert name (.object (delete entries (next :: path))) object
      | _ => object

/-- What `PatchObject` does for one path of the mask. -/
def patchField (value object : ObjectValue) (path : FieldPath) : ObjectValue :=
  if path.isEmpty then object
  else
    match get value path with
    | none => delete object path
    | some newValue => set object path newValue

/-- `PatchObject` -/
def patchObject (value : ObjectValue) (mask : FieldMask) (object : ObjectValue) : ObjectValue :=
  mask.foldl (patchField value) object

end ObjectValue

mutual

/-- The paths of the leaves of a value, an empty object being a leaf. -/
def FieldValue.leaves : FieldValue → List FieldPath
  | .object entries =>
      match ObjectValue.toFieldMask entries with
      | [] => [[]]
      | path :: paths => path :: paths
  | _ => [[]]
termination_by structural value => value

/-- `ToFieldMask` -/
def ObjectValue.toFieldMask : ObjectValue → FieldMask
  | [] => []
  | (name, value) :: entries => value.leaves.map (name :: ·) ++ ObjectValue.toFieldMask entries
termination_by structural entries => entries

end

mutual

/-- The names are in order, in the value and in the objects along every path from it. -/
def FieldValue.Sorted : FieldValue → Prop
  | .object entries => Entries.Sorted entries ∧ ObjectValue.AllSorted entries
  | _ => True
termination_by structural value => value

def ObjectValue.AllSorted : ObjectValue → Prop
  | [] => True
  | (_, value) :: entries => value.Sorted ∧ ObjectValue.AllSorted entries
termination_by structural entries => entries

end

end ProductivityApp.Firestore
