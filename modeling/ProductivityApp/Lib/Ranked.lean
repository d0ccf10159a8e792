import Mathlib.Data.List.DropRight
import Mathlib.Data.List.Perm.Subperm
import Mathlib.Data.List.Sort

/-!
# Collections in the order of a comparison

Elements that are told apart by a key are kept in the order of a comparison under which only
elements of one key are equal. Such a collection is determined by what it has at every key. A window
on it is its first elements up to a limit; the last ones are the first of the reversed collection.
-/

/-- How elements are told apart, and how they are put in order. -/
structure Ranking (κ α : Type) where
  key : α → κ
  compare : α → α → Ordering
  trans : Std.TransCmp compare
  key_eq : ∀ a b, compare a b = .eq → key a = key b

namespace Ranking

variable {κ α : Type} (r : Ranking κ α)

def Before (a b : α) : Prop := r.compare a b = .lt

instance (a b : α) : Decidable (r.Before a b) := inferInstanceAs (Decidable (_ = _))

/-- The other way round. -/
def reverse : Ranking κ α where
  key := r.key
  compare a b := r.compare b a
  trans := by
    have := r.trans
    exact inferInstance
  key_eq a b h := (r.key_eq b a h).symm

variable {r} {a b c : α}

theorem before_irrefl (a : α) : ¬r.Before a a := by
  have := r.trans
  rw [Before, @Std.ReflCmp.compare_self _ r.compare]
  exact Ordering.noConfusion

theorem Before.trans (hab : r.Before a b) (hbc : r.Before b c) : r.Before a c := by
  have := r.trans
  exact Std.TransCmp.lt_trans hab hbc

theorem Before.asymm (h : r.Before a b) : ¬r.Before b a :=
  fun hba => before_irrefl a (h.trans hba)

instance : Std.Irrefl r.Before := ⟨before_irrefl⟩

instance : Std.Antisymm r.Before := ⟨fun _ _ hab hba => absurd hba hab.asymm⟩

theorem before_or_before (h : r.key a ≠ r.key b) : r.Before a b ∨ r.Before b a := by
  have := r.trans
  cases hab : r.compare a b with
  | lt => exact Or.inl hab
  | eq => exact absurd (r.key_eq a b hab) h
  | gt => exact Or.inr (Std.OrientedCmp.lt_of_gt hab)

/-- What does not come after an element comes before all that do. -/
theorem Before.of_not (hab : r.Before a b) (hac : ¬r.Before a c) : r.Before c b := by
  have := r.trans
  cases hcompare : r.compare a c with
  | lt => exact absurd hcompare hac
  | eq => exact Std.TransCmp.lt_of_eq_of_lt (Std.OrientedCmp.eq_symm hcompare) hab
  | gt => exact Before.trans (Std.OrientedCmp.lt_of_gt hcompare) hab

end Ranking

/-- Elements with distinct keys, in their order. -/
structure Ranked {κ α : Type} (r : Ranking κ α) where
  elements : List α
  ordered : elements.Pairwise fun a b => r.Before a b ∧ r.key a ≠ r.key b

namespace Ranked

variable {κ α : Type} {r : Ranking κ α} {set other : Ranked r} {a b : α}

def empty : Ranked r := ⟨[], .nil⟩

def size (set : Ranked r) : ℕ := set.elements.length

def first (set : Ranked r) : Option α := set.elements.head?

def last (set : Ranked r) : Option α := set.elements.getLast?

def reverse (set : Ranked r) : Ranked r.reverse where
  elements := set.elements.reverse
  ordered := List.pairwise_reverse.mpr (set.ordered.imp fun h => ⟨h.1, h.2.symm⟩)

@[simp]
theorem size_reverse (set : Ranked r) : set.reverse.size = set.size := List.length_reverse

@[simp]
theorem last_reverse (set : Ranked r) : set.reverse.last = set.first := List.getLast?_reverse

theorem pairwise_before (set : Ranked r) : set.elements.Pairwise r.Before :=
  set.ordered.imp And.left

theorem eq_of_key (ha : a ∈ set.elements) (hb : b ∈ set.elements) (h : r.key a = r.key b) :
    a = b := by
  have hnodup : (set.elements.map r.key).Nodup :=
    List.pairwise_map.mpr (set.ordered.imp And.right)
  exact List.inj_on_of_nodup_map hnodup ha hb h

theorem not_before_getLast {last : α} (hlast : set.last = some last)
    (ha : a ∈ set.elements) : ¬r.Before last a := by
  obtain ⟨front, hfront⟩ := List.getLast?_eq_some_iff.mp hlast
  have hordered := set.pairwise_before
  rw [hfront] at ha hordered
  obtain hmem | hmem := List.mem_append.mp ha
  · exact ((List.pairwise_append.mp hordered).2.2 a hmem last List.mem_cons_self).asymm
  · rw [List.mem_singleton.mp hmem]
    exact Ranking.before_irrefl last

theorem nodup (set : Ranked r) : set.elements.Nodup :=
  set.ordered.imp fun h heq => h.2 (congrArg r.key heq)

/-- The element goes before the first one that comes after it. -/
def place (r : Ranking κ α) (a : α) : List α → List α
  | [] => [a]
  | b :: rest => if r.Before a b then a :: b :: rest else b :: place r a rest

theorem mem_place {a b : α} {list : List α} : b ∈ place r a list ↔ b = a ∨ b ∈ list := by
  induction list with
  | nil => simp [place]
  | cons first rest ih =>
      rw [place]
      split
      · rw [List.mem_cons]
      · rw [List.mem_cons, ih, List.mem_cons, or_left_comm]

theorem pairwise_place {a : α} {list : List α}
    (hlist : list.Pairwise fun a b => r.Before a b ∧ r.key a ≠ r.key b)
    (ha : ∀ b ∈ list, r.key b ≠ r.key a) :
    (place r a list).Pairwise fun a b => r.Before a b ∧ r.key a ≠ r.key b := by
  induction list with
  | nil => exact List.pairwise_singleton _ _
  | cons first rest ih =>
      obtain ⟨hfirst, hrest⟩ := List.pairwise_cons.mp hlist
      obtain ⟨hne, ha⟩ := List.forall_mem_cons.mp ha
      rw [place]
      split
      · rename_i hbefore
        refine List.pairwise_cons.mpr ⟨fun b hb => ?_, hlist⟩
        obtain rfl | hb := List.mem_cons.mp hb
        · exact ⟨hbefore, hne.symm⟩
        · exact ⟨hbefore.trans (hfirst b hb).1, (ha b hb).symm⟩
      · rename_i hbefore
        refine List.pairwise_cons.mpr ⟨fun b hb => ?_, ih hrest ha⟩
        obtain rfl | hb := mem_place.mp hb
        · exact ⟨(Ranking.before_or_before hne).resolve_right hbefore, hne⟩
        · exact hfirst b hb

variable [DecidableEq κ] {key : κ}

/-- The element that has a key. -/
def find (set : Ranked r) (key : κ) : Option α := set.elements.find? fun a => r.key a = key

def erase (set : Ranked r) (key : κ) : Ranked r where
  elements := set.elements.filter fun a => r.key a ≠ key
  ordered := set.ordered.filter _

/-- What has the key of the element is erased first. -/
def insert (set : Ranked r) (a : α) : Ranked r where
  elements := place r a (set.erase (r.key a)).elements
  ordered := pairwise_place (set.erase (r.key a)).ordered fun _ hb =>
    of_decide_eq_true (List.mem_filter.mp hb).2

/-! ### What is found -/

theorem find_eq_some_iff : set.find key = some a ↔ a ∈ set.elements ∧ r.key a = key := by
  constructor
  · intro h
    have hkey := List.find?_some (p := fun a => decide (r.key a = key)) h
    exact ⟨List.mem_of_find?_eq_some h, of_decide_eq_true hkey⟩
  · rintro ⟨hmem, rfl⟩
    have hsome : (set.find (r.key a)).isSome = true :=
      List.find?_isSome.mpr ⟨a, hmem, by simp⟩
    obtain ⟨b, hb⟩ := Option.isSome_iff_exists.mp hsome
    have hkey := List.find?_some (p := fun b => decide (r.key b = r.key a)) hb
    rw [hb, eq_of_key (List.mem_of_find?_eq_some hb) hmem (of_decide_eq_true hkey)]

theorem mem_iff : a ∈ set.elements ↔ set.find (r.key a) = some a := by
  rw [find_eq_some_iff, and_iff_left rfl]

theorem key_of_find (h : set.find key = some a) : r.key a = key := (find_eq_some_iff.mp h).2

theorem find_erase (set : Ranked r) (key other : κ) :
    (set.erase key).find other = if other = key then none else set.find other := by
  refine Option.ext fun a => ?_
  rw [find_eq_some_iff, erase, List.mem_filter, decide_eq_true_iff]
  split
  · rename_i heq
    refine iff_of_false (fun h => h.1.2 (h.2.trans heq)) (by simp)
  · rename_i hne
    rw [find_eq_some_iff]
    exact ⟨fun h => ⟨h.1.1, h.2⟩, fun h => ⟨⟨h.1, fun heq => hne (h.2.symm.trans heq)⟩, h.2⟩⟩

theorem find_insert (set : Ranked r) (a : α) (other : κ) :
    (set.insert a).find other = if other = r.key a then some a else set.find other := by
  refine Option.ext fun b => ?_
  rw [find_eq_some_iff, insert, mem_place]
  by_cases heq : other = r.key a
  · rw [if_pos heq, Option.some_inj]
    constructor
    · rintro ⟨rfl | hmem, hkey⟩
      · rfl
      · exact absurd (hkey.trans heq) (of_decide_eq_true (List.mem_filter.mp hmem).2)
    · rintro rfl
      exact ⟨Or.inl rfl, heq.symm⟩
  · rw [if_neg heq, find_eq_some_iff]
    constructor
    · rintro ⟨rfl | hmem, hkey⟩
      · exact absurd hkey.symm heq
      · exact ⟨(List.mem_filter.mp hmem).1, hkey⟩
    · rintro ⟨hmem, hkey⟩
      refine ⟨Or.inr (List.mem_filter.mpr ⟨hmem, decide_eq_true ?_⟩), hkey⟩
      exact fun h => heq (hkey.symm.trans h)

theorem elements_erase_last {last : α} (h : set.last = some last) :
    (set.erase (r.key last)).elements = set.elements.dropLast := by
  obtain ⟨front, hfront⟩ := List.getLast?_eq_some_iff.mp h
  have hordered := set.ordered
  rw [hfront] at hordered
  have hne : ∀ a ∈ front, r.key a ≠ r.key last := fun a ha =>
    ((List.pairwise_append.mp hordered).2.2 a ha last List.mem_cons_self).2
  change set.elements.filter (fun a => r.key a ≠ r.key last) = set.elements.dropLast
  rw [hfront, List.dropLast_concat, List.filter_append,
    List.filter_eq_self.mpr fun a ha => decide_eq_true (hne a ha)]
  simp

theorem elements_erase_first {first : α} (h : set.first = some first) :
    (set.erase (r.key first)).elements = set.elements.tail := by
  obtain ⟨rest, hrest⟩ := List.head?_eq_some_iff.mp h
  have hordered := set.ordered
  rw [hrest] at hordered
  have hne : ∀ a ∈ rest, r.key a ≠ r.key first := fun a ha =>
    ((List.pairwise_cons.mp hordered).1 a ha).2.symm
  change set.elements.filter (fun a => r.key a ≠ r.key first) = set.elements.tail
  rw [hrest, List.tail_cons, List.filter_cons_of_neg (by simp),
    List.filter_eq_self.mpr fun a ha => decide_eq_true (hne a ha)]

/-- A collection changed at some keys. -/
theorem exists_changed (set : Ranked r) (keys : List κ) (f : κ → Option α)
    (hkey : ∀ key ∈ keys, ∀ a ∈ f key, r.key a = key) :
    ∃ next : Ranked r, ∀ key, next.find key = if key ∈ keys then f key else set.find key := by
  induction keys with
  | nil => exact ⟨set, fun key => (if_neg List.not_mem_nil).symm⟩
  | cons first keys ih =>
      obtain ⟨hfirst, hrest⟩ := List.forall_mem_cons.mp hkey
      obtain ⟨next, hnext⟩ := ih hrest
      cases hvalue : f first with
      | none =>
          refine ⟨next.erase first, fun key => ?_⟩
          rw [find_erase, hnext]
          by_cases heq : key = first
          · rw [if_pos heq, if_pos (heq ▸ List.mem_cons_self), heq, hvalue]
          · simp only [List.mem_cons, heq, if_false, false_or]
      | some a =>
          refine ⟨next.insert a, fun key => ?_⟩
          rw [find_insert, hnext, hfirst a hvalue]
          by_cases heq : key = first
          · rw [if_pos heq, if_pos (heq ▸ List.mem_cons_self), heq, hvalue]
          · simp only [List.mem_cons, heq, if_false, false_or]

theorem ext (h : ∀ key, set.find key = other.find key) : set = other := by
  have helements : set.elements = other.elements :=
    set.pairwise_before.eq_of_mem_iff other.pairwise_before fun a => by rw [mem_iff, h, ← mem_iff]
  cases set
  cases other
  cases helements
  rfl

theorem find_reverse (set : Ranked r) (key : κ) : set.reverse.find key = set.find key := by
  refine Option.ext fun a => ?_
  rw [find_eq_some_iff, find_eq_some_iff, reverse, List.mem_reverse]
  rfl

/-! ### Windows -/

/-- Leaving out elements that come after enough others does not change the first ones. -/
theorem take_eq_take_of_sublist {before : α → α → Prop} (hasymm : ∀ a b, before a b → ¬before b a)
    {as bs : List α} (hsorted : bs.Pairwise before) (hsub : as.Sublist bs) (n : ℕ)
    (hleft : ∀ b ∈ bs, b ∉ as → n ≤ as.length ∧ ∀ a ∈ as.take n, before a b) :
    as.take n = bs.take n := by
  induction hsub generalizing n with
  | slnil => rfl
  | @cons as bs b hsub ih =>
      obtain ⟨hb, hsorted⟩ := List.pairwise_cons.mp hsorted
      have hnot : b ∉ as :=
        fun hmem => hasymm b b (hb b (hsub.subset hmem)) (hb b (hsub.subset hmem))
      obtain ⟨hlength, hbefore⟩ := hleft b List.mem_cons_self hnot
      cases n with
      | zero => rfl
      | succ n =>
          cases as with
          | nil => simp at hlength
          | cons a as =>
              have ha := hbefore a (by simp)
              exact absurd (hb a (hsub.subset List.mem_cons_self)) (hasymm a b ha)
  | @cons_cons as bs a hsub ih =>
      obtain ⟨ha, hsorted⟩ := List.pairwise_cons.mp hsorted
      cases n with
      | zero => rfl
      | succ n =>
          rw [List.take_succ_cons, List.take_succ_cons, ih hsorted n fun b hb hnot => ?_]
          have hne : b ∉ a :: as := by
            rw [List.mem_cons, not_or]
            refine ⟨?_, hnot⟩
            rintro rfl
            exact hasymm b b (ha b hb) (ha b hb)
          obtain ⟨hlength, hbefore⟩ := hleft b (List.mem_cons_of_mem _ hb) hne
          refine ⟨Nat.le_of_succ_le_succ hlength, fun c hc => hbefore c ?_⟩
          exact List.mem_cons_of_mem _ hc

/-- If enough elements have a property that is passed on to all elements before, the first have it.
-/
theorem of_mem_take {before : α → α → Prop} {p : α → Bool} {list : List α}
    (hsorted : list.Pairwise before) (hclosed : ∀ a b, before a b → p b = true → p a = true) {n : ℕ}
    (hn : n ≤ (list.filter p).length) : ∀ a ∈ list.take n, p a = true := by
  induction list generalizing n with
  | nil => simp
  | cons first rest ih =>
      obtain ⟨hfirst, hrest⟩ := List.pairwise_cons.mp hsorted
      cases n with
      | zero => simp
      | succ n =>
          cases hp : p first with
          | true =>
              rw [List.filter_cons_of_pos hp] at hn
              rw [List.take_succ_cons, List.forall_mem_cons]
              exact ⟨hp, ih hrest (Nat.le_of_succ_le_succ hn)⟩
          | false =>
              have hnone : (first :: rest).filter p = [] := by
                rw [List.filter_eq_nil_iff, List.forall_mem_cons, hp]
                refine ⟨Bool.false_ne_true, fun b hb hpb => ?_⟩
                rw [hclosed first b (hfirst b hb) hpb] at hp
                cases hp
              rw [hnone] at hn
              simp at hn

section Windows

variable {whole next pool window : Ranked r} {n : ℕ} {last : α} {changed : κ → Prop}

/-- A full window. -/
theorem take_eq_take_of_full (hwindow : window.elements = whole.elements.take n)
    (hsize : window.size = n) (hlast : window.last = some last)
    (hchanged : ∀ key, changed key → pool.find key = next.find key)
    (hsame : ∀ key, ¬changed key →
      pool.find key = window.find key ∧ next.find key = whole.find key)
    (hkept : ∀ a ∈ window.elements, changed (r.key a) →
      ∃ b, next.find (r.key a) = some b ∧ ¬r.Before last b) :
    pool.elements.take n = next.elements.take n := by
  have hsub (a : α) (ha : a ∈ window.elements) : a ∈ whole.elements :=
    List.mem_of_mem_take (hwindow ▸ ha)
  have hstay : ∀ a ∈ window.elements,
      ∃ b, pool.find (r.key a) = some b ∧ ¬r.Before last b := by
    intro a ha
    by_cases hchange : changed (r.key a)
    · obtain ⟨b, hb, hbefore⟩ := hkept a ha hchange
      exact ⟨b, (hchanged _ hchange).trans hb, hbefore⟩
    · exact ⟨a, (hsame _ hchange).1.trans (mem_iff.mp ha), not_before_getLast hlast ha⟩
  have hmany : n ≤ (pool.elements.filter fun b => !r.Before last b).length := by
    let moved (a : α) : α := (pool.find (r.key a)).getD a
    have hmoved : ∀ a ∈ window.elements, pool.find (r.key a) = some (moved a) := by
      intro a ha
      obtain ⟨b, hb, -⟩ := hstay a ha
      simp only [moved, hb, Option.getD_some]
    have hnodup : (window.elements.map moved).Nodup := by
      refine window.nodup.map_on fun a ha b hb heq => eq_of_key ha hb ?_
      rw [← key_of_find (hmoved a ha), ← key_of_find (hmoved b hb), heq]
    have hsubset : window.elements.map moved
        ⊆ pool.elements.filter fun b => !r.Before last b := by
      intro b hb
      obtain ⟨a, ha, rfl⟩ := List.mem_map.mp hb
      obtain ⟨b, hb, hbefore⟩ := hstay a ha
      cases (hmoved a ha).symm.trans hb
      exact List.mem_filter.mpr ⟨(find_eq_some_iff.mp (hmoved a ha)).1, by simpa using hbefore⟩
    have hlength := (hnodup.subperm hsubset).length_le
    rw [List.length_map] at hlength
    exact hsize.symm.le.trans hlength
  have hpool : ∀ b ∈ pool.elements, b ∈ next.elements := by
    intro b hb
    rw [mem_iff] at hb ⊢
    by_cases hchange : changed (r.key b)
    · exact (hchanged _ hchange).symm.trans hb
    · obtain ⟨hfind, hnext⟩ := hsame _ hchange
      exact hnext.trans (mem_iff.mp (hsub b (mem_iff.mpr (hfind.symm.trans hb))))
  have hsublist : pool.elements.Sublist next.elements :=
    List.sublist_of_subperm_of_pairwise (pool.nodup.subperm hpool) pool.pairwise_before
      next.pairwise_before
  refine take_eq_take_of_sublist (fun a b => Ranking.Before.asymm) next.pairwise_before hsublist n
    fun b hb hnot => ?_
  have hunchanged : ¬changed (r.key b) :=
    fun hchange => hnot (mem_iff.mpr ((hchanged _ hchange).trans (mem_iff.mp hb)))
  obtain ⟨hfind, hnext⟩ := hsame _ hunchanged
  have hwhole : b ∈ whole.elements := mem_iff.mpr (hnext.symm.trans (mem_iff.mp hb))
  have houtside : b ∉ window.elements :=
    fun hmem => hnot (mem_iff.mpr (hfind.trans (mem_iff.mp hmem)))
  have hbehind : r.Before last b := by
    have hordered := whole.pairwise_before
    rw [← List.take_append_drop n whole.elements, ← hwindow] at hwhole hordered
    exact (List.pairwise_append.mp hordered).2.2 last (List.mem_of_getLast? hlast) b
      ((List.mem_append.mp hwhole).resolve_left houtside)
  refine ⟨hmany.trans (List.length_filter_le _ _), fun a ha => hbehind.of_not ?_⟩
  have hfirst := of_mem_take (p := fun b => !r.Before last b) pool.pairwise_before
    (fun a b hab hb => ?_) hmany a ha
  · simpa using hfirst
  · have hb : ¬r.Before last b := by simpa using hb
    have ha : ¬r.Before last a := fun hlast => hb (hlast.trans hab)
    simpa using ha

/-- **Windows move along.** A collection changes at some keys, and a window on its first elements is
told of all changes. If the elements of the window all stay and do not move behind its last one, or
if it is not full, it has the first elements of the changed collection. -/
theorem take_eq_take_of_changed (hwindow : window.elements = whole.elements.take n)
    (hchanged : ∀ key, changed key → pool.find key = next.find key)
    (hsame : ∀ key, ¬changed key →
      pool.find key = window.find key ∧ next.find key = whole.find key)
    (hkept : ∀ last, window.size = n → window.last = some last →
      ∀ a ∈ window.elements, changed (r.key a) →
        ∃ b, next.find (r.key a) = some b ∧ ¬r.Before last b) :
    pool.elements.take n = next.elements.take n := by
  by_cases hsize : window.size = n
  · cases hlast : window.last with
    | none =>
        have hempty : window.elements = [] := List.getLast?_eq_none_iff.mp hlast
        rw [size, hempty] at hsize
        rw [← hsize, List.length_nil, List.take_zero, List.take_zero]
    | some last =>
        exact take_eq_take_of_full hwindow hsize hlast hchanged hsame (hkept last hsize hlast)
  · have hall : window.elements = whole.elements := by
      rw [size, hwindow, List.length_take] at hsize
      exact hwindow.trans (List.take_of_length_le (by omega))
    have hsame : pool = next := by
      refine ext fun key => ?_
      by_cases hchange : changed key
      · exact hchanged key hchange
      · obtain ⟨hpool, hnext⟩ := hsame key hchange
        rw [hpool, hnext, find, find, hall]
    rw [hsame]

end Windows

end Ranked
