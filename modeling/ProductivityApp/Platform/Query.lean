import ProductivityApp.Platform.Firestore
import Mathlib.Data.List.Sort
import Mathlib.Data.Prod.Lex
import Mathlib.Data.String.Basic

/-!
# Ordered queries

`order(by:)` returns the documents that have the field, in the order of its values. Values of
different types are ordered by type first, and documents with equal values by their id. That order
is Firestore's own; the number a value is cast to may be ordered otherwise.
-/

namespace ProductivityApp

abbrev DocumentID := String

/-- The documents of a collection, by id. -/
abbrev Collection := List (DocumentID × Document)

/-- The place of a value in Firestore's order: its type, then its value. Integers and doubles are
one type. Composite values are ordered by type only and timestamps by their seconds only, so that
documents with such values of one place are in the order of their ids. -/
def Value.key : Value → ℕ ×ₗ Double ×ₗ String
  | .null => toLex (0, toLex (Double.ofRat 0, ""))
  | .boolean b => toLex (1, toLex (Double.ofRat (if b then 1 else 0), ""))
  | .integer n => toLex (2, toLex (Double.ofRat n, ""))
  | .double x => toLex (2, toLex (x, ""))
  | .timestamp seconds => toLex (3, toLex (Double.ofRat seconds, ""))
  | .string s => toLex (4, toLex (Double.ofRat 0, s))
  | .composite kind => toLex (5 + kind, toLex (Double.ofRat 0, ""))

/-- The place of a document among those that have the field. -/
def queryKey (field : String) (entry : DocumentID × Document) :
    WithBot (ℕ ×ₗ Double ×ₗ String) ×ₗ DocumentID :=
  toLex ((entry.2.get field).map Value.key, entry.1)

/-- `order(by:)` -/
def Collection.orderBy (collection : Collection) (field : String) : Collection :=
  (collection.filter fun entry => (entry.2.get field).isSome).insertionSort
    fun a b => queryKey field a ≤ queryKey field b

section

variable (collection : Collection) (field : String)

theorem orderBy_perm :
    (collection.orderBy field).Perm
      (collection.filter fun entry => (entry.2.get field).isSome) :=
  List.perm_insertionSort _ _

theorem orderBy_pairwise :
    (collection.orderBy field).Pairwise fun a b => queryKey field a ≤ queryKey field b :=
  have : Std.Total fun a b : DocumentID × Document => queryKey field a ≤ queryKey field b :=
    ⟨fun a b => le_total (queryKey field a) (queryKey field b)⟩
  have : IsTrans (DocumentID × Document) fun a b => queryKey field a ≤ queryKey field b :=
    ⟨fun _ _ _ => le_trans⟩
  List.pairwise_insertionSort _ _

end

def Value.isBoolean : Value → Bool
  | .boolean _ => true
  | _ => false

/-- What is cast to a number is ordered by that number, booleans before the others. -/
theorem Value.key_of_asDouble {value : Value} {x : Double} (h : value.asDouble = some x) :
    value.key = toLex (if value.isBoolean then 1 else 2, toLex (x, "")) := by
  cases value with
  | integer n =>
      simp only [asDouble, Option.ite_none_right_eq_some, Option.some.injEq] at h
      rw [key, h.2]
      rfl
  | double y =>
      cases h
      rfl
  | boolean b =>
      cases h
      rfl
  | _ => cases h

section

variable {a b : Value} {x y : Double}

theorem Value.asDouble_le_of_key_le (h : a.key ≤ b.key) (hx : a.asDouble = some x)
    (hy : b.asDouble = some y) (hsame : a.isBoolean = b.isBoolean) : x ≤ y := by
  rw [key_of_asDouble hx, key_of_asDouble hy, hsame, Prod.Lex.toLex_le_toLex] at h
  obtain hlt | ⟨-, h⟩ := h
  · exact absurd hlt (lt_irrefl _)
  · obtain hlt | ⟨heq, -⟩ := Prod.Lex.toLex_le_toLex.mp h
    · exact hlt.le
    · exact heq.le

theorem Value.isBoolean_of_key_le (h : a.key ≤ b.key) (hx : a.asDouble = some x)
    (hy : b.asDouble = some y) (hb : b.isBoolean = true) : a.isBoolean = true := by
  by_contra ha
  rw [key_of_asDouble hx, key_of_asDouble hy, hb, if_neg ha, Prod.Lex.toLex_le_toLex] at h
  simp at h

end

end ProductivityApp
