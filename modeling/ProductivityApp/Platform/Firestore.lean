import ProductivityApp.Platform.Foundation

/-!
# Firestore documents

A document is a map from field names to dynamically typed values, and the app reads it with Swift's
conditional casts. The casts succeed more often than the constructors suggest: numbers and booleans
reach Swift as `NSNumber`, and `as? Double` accepts every `NSNumber` whose value a double can hold.
-/

namespace ProductivityApp

/-- A field value. `composite` stands for bytes, references, geo points, arrays and maps, in that
order: no code of the app looks inside one. -/
inductive Value where
  | null
  | boolean (b : Bool)
  | integer (n : ℤ)
  | double (x : Double)
  | timestamp (seconds : ℤ)
  | string (s : String)
  | composite (kind : ℕ)
  deriving DecidableEq

/-- `as? String` -/
def Value.asString : Value → Option String
  | .string s => some s
  | _ => none

/-- Whether a 64-bit integer is the value of a double: its magnitude is a 53-bit number times a
power of two. -/
def exactDouble (n : ℤ) : Bool :=
  (List.range 11).any fun k => n.natAbs % 2 ^ k = 0 && n.natAbs / 2 ^ k ≤ 2 ^ 53

/-- The double a rational is the value of. -/
def Double.ofRat (q : ℚ) : Double := ((q : WithTop ℚ) : WithBot (WithTop ℚ))

/-- `as? Double`, on what Firestore hands to Swift -/
def Value.asDouble : Value → Option Double
  | .double x => some x
  | .integer n => if exactDouble n then some (Double.ofRat n) else none
  | .boolean b => some (Double.ofRat (if b then 1 else 0))
  | _ => none

/-- The dictionary literal of a write. -/
abbrev Fields := List (String × Value)

/-- A document, by its fields. -/
structure Document where
  get : String → Option Value

namespace Document

def empty : Document := ⟨fun _ => none⟩

/-- The document with the given fields replaced. -/
def merge (document : Document) (fields : Fields) : Document :=
  ⟨fun field => (fields.lookup field).or (document.get field)⟩

/-- `data[field] as? String` -/
def string (document : Document) (field : String) : Option String :=
  (document.get field).bind Value.asString

/-- `data[field] as? Double` -/
def double (document : Document) (field : String) : Option Double :=
  (document.get field).bind Value.asDouble

@[simp]
theorem get_empty (field : String) : empty.get field = none := rfl

@[simp]
theorem get_merge (document : Document) (fields : Fields) (field : String) :
    (document.merge fields).get field = (fields.lookup field).or (document.get field) := rfl

end Document

/-- What a write does to the document it names: `setData` replaces it, `updateData` changes fields
of a document that has to exist. -/
inductive WriteKind where
  | set
  | update
  deriving DecidableEq

def WriteKind.apply (fields : Fields) : WriteKind → Option Document → Option Document
  | .set, _ => some (Document.empty.merge fields)
  | .update, document => document.map (·.merge fields)

end ProductivityApp
