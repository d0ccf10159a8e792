import ProductivityApp.Firestore.Query
import ProductivityApp.Lib.Ranked
import ProductivityApp.Proof.ValueOrder

/-!
# The order of documents

The comparator of a query compares documents by one field after the other, each in its own
direction, and by their keys. It looks at nothing but the fields and the key of a document, and it
is an order in which only a document with the same key is equal. So documents can be kept in it.
-/

namespace ProductivityApp.Firestore

open Lexicographic

theorem compareContainer_eq (k l : DocumentKey) :
    compareContainer compareString k l = order k l := by
  induction k generalizing l with
  | nil =>
      cases l with
      | nil => exact (order_self _).symm
      | cons b l => exact (order_of_lt (List.nil_lt_cons b l)).symm
  | cons a k ih =>
      cases l with
      | nil => exact (order_of_gt (List.nil_lt_cons a k)).symm
      | cons b l => rw [compareContainer, ih, order_cons]; rfl

/-- What an order by a field looks at: a missing field comes before all values. -/
def OrderBy.place (orderBy : OrderBy) (doc : Document) : WithBot (List Token) :=
  match doc.field orderBy.field with
  | some value => (value.key : WithBot (List Token))
  | none => ⊥

namespace OrderBy

variable {orderBy : OrderBy}

theorem order_coe (a b : List Token) :
    order (a : WithBot (List Token)) (b : WithBot (List Token)) = order a b :=
  WithBot.coe_strictMono.cmp_map_eq a b

theorem transCmp_ascending (orderBy : OrderBy) :
    Std.TransCmp fun lhs rhs : Document =>
      if orderBy.field = keyFieldPath then compareContainer compareString lhs.key rhs.key
      else
        match lhs.field orderBy.field, rhs.field orderBy.field with
        | some value1, some value2 => value1.compareTo value2
        | none, some _ => .lt
        | some _, none => .gt
        | none, none => .eq := by
  by_cases hfield : orderBy.field = keyFieldPath
  · simp only [if_pos hfield]
    exact transCmp_of_encoding Document.key fun a b => compareContainer_eq a.key b.key
  · simp only [if_neg hfield]
    refine transCmp_of_encoding orderBy.place fun a b => ?_
    unfold place
    cases ha : a.field orderBy.field with
    | none =>
        cases hb : b.field orderBy.field with
        | none => exact (order_self _).symm
        | some value => exact (order_of_lt (WithBot.bot_lt_coe _)).symm
    | some left =>
        cases hb : b.field orderBy.field with
        | none => exact (order_of_gt (WithBot.bot_lt_coe _)).symm
        | some right => exact (FieldValue.compareTo_eq left right).trans (order_coe _ _).symm

theorem transCmp_applyTo (direction : Direction) {α : Type} {cmp : α → α → Ordering}
    (h : Std.TransCmp cmp) : Std.TransCmp fun a b => direction.applyTo (cmp a b) := by
  cases direction with
  | ascending => exact h
  | descending =>
      have hswap : (fun a b => Direction.descending.applyTo (cmp a b)) = fun a b => cmp b a :=
        funext fun a => funext fun b => Std.OrientedCmp.eq_swap.symm
      rw [hswap]
      exact inferInstance

instance : Std.TransCmp orderBy.compare :=
  transCmp_applyTo orderBy.direction (transCmp_ascending orderBy)

theorem key_eq_of_compare {lhs rhs : Document} (hfield : orderBy.field = keyFieldPath)
    (h : orderBy.compare lhs rhs = .eq) : lhs.key = rhs.key := by
  rw [compare, if_pos hfield, compareContainer_eq] at h
  have horder : order lhs.key rhs.key = .eq := by
    cases hdirection : orderBy.direction with
    | ascending => rwa [hdirection] at h
    | descending =>
        rw [hdirection] at h
        exact Ordering.swap_inj.mp h
  exact (cmp_eq_eq_iff _ _).mp horder

end OrderBy

namespace Query

variable {query : Query}

theorem transCmp_orderBys (orderBys : List OrderBy) :
    Std.TransCmp fun doc1 doc2 : Document =>
      orderBys.foldr (fun orderBy rest => (orderBy.compare doc1 doc2).then rest) .eq := by
  induction orderBys with
  | nil => exact transCmp_of_encoding (fun _ : Document => 0) fun _ _ => (order_self 0).symm
  | cons orderBy orderBys ih =>
      exact inferInstanceAs (Std.TransCmp (compareLex orderBy.compare _))

instance : Std.TransCmp query.comparator := transCmp_orderBys query.orderBys

/-- `has_key_ordering`, which `Comparator` asserts -/
theorem exists_keyOrdering (query : Query) :
    ∃ orderBy ∈ query.orderBys, orderBy.field = keyFieldPath := by
  unfold orderBys
  split
  · rename_i hexplicit
    obtain ⟨orderBy, hmem, hfield⟩ := List.any_eq_true.mp hexplicit
    exact ⟨orderBy, hmem, of_decide_eq_true hfield⟩
  · exact ⟨_, List.mem_append_right _ List.mem_cons_self, rfl⟩

theorem key_eq_of_comparator {doc1 doc2 : Document} (h : query.comparator doc1 doc2 = .eq) :
    doc1.key = doc2.key := by
  obtain ⟨orderBy, hmem, hfield⟩ := query.exists_keyOrdering
  unfold comparator at h
  generalize query.orderBys = orderBys at hmem h
  induction orderBys with
  | nil => cases hmem
  | cons first orderBys ih =>
      rw [List.foldr_cons, Ordering.then_eq_eq] at h
      obtain rfl | hmem := List.mem_cons.mp hmem
      · exact OrderBy.key_eq_of_compare hfield h.1
      · exact ih hmem h.2

theorem isLE_of_comparator {orderBy : OrderBy} {others : List OrderBy} {doc1 doc2 : Document}
    (horder : query.explicitOrderBys = orderBy :: others)
    (h : (query.comparator doc1 doc2).isLE) : (orderBy.compare doc1 doc2).isLE := by
  obtain ⟨rest, hrest⟩ : ∃ rest, query.orderBys = orderBy :: rest := by
    unfold orderBys
    rw [horder]
    split
    · exact ⟨_, rfl⟩
    · exact ⟨_, rfl⟩
  rw [comparator, hrest, List.foldr_cons] at h
  cases hcompare : orderBy.compare doc1 doc2 with
  | lt => rfl
  | eq => rfl
  | gt => rw [hcompare] at h; exact absurd h Bool.false_ne_true

/-- **The comparator of a query is an order**, in which only documents of one key are equal, and the
first field asked for is in its direction. -/
theorem comparator_order (query : Query) :
    Std.TransCmp query.comparator
      ∧ (∀ doc1 doc2, query.comparator doc1 doc2 = .eq → doc1.key = doc2.key)
      ∧ ∀ orderBy others, query.explicitOrderBys = orderBy :: others →
        ∀ doc1 doc2, (query.comparator doc1 doc2).isLE → (orderBy.compare doc1 doc2).isLE :=
  ⟨inferInstance, fun _ _ => key_eq_of_comparator, fun _ _ horder _ _ => isLE_of_comparator horder⟩

/-- The order of a query on documents. -/
def ranking (query : Query) : Ranking DocumentKey Document where
  key := Document.key
  compare := query.comparator
  trans := inferInstance
  key_eq _ _ := key_eq_of_comparator

/-- The comparator looks at nothing but the key and the fields of a document. -/
theorem comparator_congr {a b c d : Document} (hac : a.key = c.key ∧ a.data = c.data)
    (hbd : b.key = d.key ∧ b.data = d.data) : query.comparator a b = query.comparator c d := by
  have hcompare (orderBy : OrderBy) : orderBy.compare a b = orderBy.compare c d := by
    unfold OrderBy.compare Document.field
    rw [hac.1, hac.2, hbd.1, hbd.2]
  unfold comparator
  simp only [hcompare]

end Query

end ProductivityApp.Firestore
