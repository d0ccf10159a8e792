import Mathlib.Data.List.Lex
import Mathlib.Data.Prod.Lex
import Mathlib.Order.Compare
import Mathlib.Order.Monotone.Basic

/-!
# Comparing lexicographically

A comparison of composite values looks at their parts one after the other. These are the rules by
which the order of lists and of pairs is such a comparison of the parts, so that a comparison
function can be shown to be the order of an encoding.
-/

namespace Lexicographic

variable {α β : Type} [LinearOrder α] [LinearOrder β]

/-- The comparison of a linear order. -/
def order (a b : α) : Ordering := cmp a b

theorem order_eq_of_compares {a b : α} {o : Ordering} (h : o.Compares a b) : order a b = o := by
  cases o with
  | lt => exact (cmp_eq_lt_iff a b).mpr h
  | eq => exact (cmp_eq_eq_iff a b).mpr h
  | gt => exact (cmp_eq_gt_iff a b).mpr h

theorem order_of_lt {a b : α} (h : a < b) : order a b = .lt := order_eq_of_compares h

theorem order_of_gt {a b : α} (h : b < a) : order a b = .gt := order_eq_of_compares h

@[simp]
theorem order_self (a : α) : order a a = .eq := order_eq_of_compares rfl

theorem order_cons (a b : α) (as bs : List α) :
    order (a :: as) (b :: bs) = (order a b).then (order as bs) := by
  apply order_eq_of_compares
  obtain hlt | rfl | hgt := lt_trichotomy a b
  · rw [order_of_lt hlt]
    exact List.cons_lt_cons_iff.mpr (Or.inl hlt)
  · rw [order_self]
    obtain hlt | rfl | hgt := lt_trichotomy as bs
    · rw [order_of_lt hlt]
      exact List.cons_lt_cons_iff.mpr (Or.inr ⟨rfl, hlt⟩)
    · rw [order_self]
      rfl
    · rw [order_of_gt hgt]
      exact List.cons_lt_cons_iff.mpr (Or.inr ⟨rfl, hgt⟩)
  · rw [order_of_gt hgt]
    exact List.cons_lt_cons_iff.mpr (Or.inl hgt)

theorem order_toLex (a b : α) (c d : β) :
    order (toLex (a, c)) (toLex (b, d)) = (order a b).then (order c d) := by
  apply order_eq_of_compares
  obtain hlt | rfl | hgt := lt_trichotomy a b
  · rw [order_of_lt hlt]
    exact Prod.Lex.toLex_lt_toLex.mpr (Or.inl hlt)
  · rw [order_self]
    obtain hlt | rfl | hgt := lt_trichotomy c d
    · rw [order_of_lt hlt]
      exact Prod.Lex.toLex_lt_toLex.mpr (Or.inr ⟨rfl, hlt⟩)
    · rw [order_self]
      rfl
    · rw [order_of_gt hgt]
      exact Prod.Lex.toLex_lt_toLex.mpr (Or.inr ⟨rfl, hgt⟩)
  · rw [order_of_gt hgt]
    exact Prod.Lex.toLex_lt_toLex.mpr (Or.inl hgt)

/-! ### Comparisons that are the order of an encoding -/

variable {γ : Type} {compare : γ → γ → Ordering} {encode : γ → α}

theorem swap_of_encoding (h : ∀ a b, compare a b = order (encode a) (encode b)) (a b : γ) :
    compare b a = (compare a b).swap := by
  rw [h, h, order, order, cmp_swap]

theorem isLE_iff (a b : α) : (order a b).isLE ↔ a ≤ b := by
  obtain hlt | rfl | hgt := lt_trichotomy a b
  · rw [order_of_lt hlt]
    exact iff_of_true rfl hlt.le
  · rw [order_self]
    exact iff_of_true rfl le_rfl
  · rw [order_of_gt hgt]
    exact iff_of_false (by decide) hgt.not_ge

theorem trans_of_encoding (h : ∀ a b, compare a b = order (encode a) (encode b)) {a b c : γ}
    (hab : (compare a b).isLE) (hbc : (compare b c).isLE) : (compare a c).isLE := by
  rw [h, isLE_iff] at hab hbc ⊢
  exact hab.trans hbc

theorem transCmp_of_encoding (encode : γ → α)
    (h : ∀ a b, compare a b = order (encode a) (encode b)) : Std.TransCmp compare where
  eq_swap := swap_of_encoding (fun a b => h a b) _ _
  isLE_trans := trans_of_encoding h

end Lexicographic
