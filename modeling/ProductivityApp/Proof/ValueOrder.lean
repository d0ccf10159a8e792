import ProductivityApp.Firestore.FieldValue
import ProductivityApp.Lib.Lexicographic
import ProductivityApp.Platform.Query

/-!
# The order of field values

`CompareTo` is a large case distinction, with casts between numbers and a recursion into arrays and
maps, and sorting relies on its being an order. It is: every value is written as a word over one
ordered alphabet, so that no word is the beginning of another, and comparing two values is comparing
their words. What the app reads as a number is in the order that `order(by:)` has.
-/

namespace ProductivityApp.Firestore

open Lexicographic

/-- The letters: a kind, a number and a text. -/
abbrev Token := ℕ ×ₗ Double ×ₗ String

def token (kind : ℕ) (number : Double) (text : String) : Token := toLex (kind, toLex (number, text))

/-- A letter that is only a kind. -/
def mark (kind : ℕ) : Token := token kind (Double.ofRat 0) ""

/-- A list of parts, each announced by a letter that is not the last one. -/
def keyList {α : Type} (letter : α → Token) : List α → List Token
  | [] => [mark 0]
  | part :: parts => letter part :: keyList letter parts

/-- The letter of a segment of a path. -/
def segmentToken (segment : String) : Token := token 1 (Double.ofRat 0) segment

def Timestamp.key (kind : ℕ) (timestamp : Timestamp) : List Token :=
  [token kind (Double.ofRat timestamp.seconds) "", token 0 (Double.ofRat timestamp.nanoseconds) ""]

namespace FieldValue

/-- The kind of a value: its type, integers and doubles being one kind. -/
def kind (value : FieldValue) : ℕ := if value.type = 3 then 2 else value.type

mutual

/-- The word of a value. -/
def key : FieldValue → List Token
  | .null => [mark 0]
  | .boolean value => [token 1 (Double.ofRat (if value then 1 else 0)) ""]
  | .integer value => [token 2 (int64Value value) ""]
  | .double value => [token 2 value.value ""]
  | .timestamp value => value.key 4
  | .serverTimestamp localWriteTime => localWriteTime.key 5
  | .string value => [token 6 (Double.ofRat 0) value]
  | .blob bytes => mark 7 :: keyList (fun byte => token 1 (Double.ofRat byte.toNat) "") bytes
  | .reference database key =>
      token 8 (Double.ofRat 0) database.projectId :: token 0 (Double.ofRat 0) database.databaseId
        :: keyList segmentToken key
  | .geoPoint value =>
      [token 9 (Double.ofRat value.latitude) "", token 0 (Double.ofRat value.longitude) ""]
  | .array values => mark 10 :: keyArray values
  | .object entries => mark 11 :: keyObject entries
termination_by structural value => value

def keyArray : List FieldValue → List Token
  | [] => [mark 0]
  | value :: values => mark 1 :: (key value ++ keyArray values)
termination_by structural values => values

def keyObject : List (String × FieldValue) → List Token
  | [] => [mark 0]
  | (name, value) :: entries => token 1 (Double.ofRat 0) name :: (key value ++ keyObject entries)
termination_by structural entries => entries

end

end FieldValue

/-! ### Letters -/

theorem order_token (k l : ℕ) (p q : Double) (s t : String) :
    order (token k p s) (token l q t) = (order k l).then ((order p q).then (order s t)) := by
  rw [token, token, order_toLex, order_toLex]

theorem order_ofRat (p q : ℚ) : order (Double.ofRat p) (Double.ofRat q) = order p q := by
  have hmono : StrictMono Double.ofRat := by
    intro p q hlt
    exact WithBot.coe_lt_coe.mpr (WithBot.coe_lt_coe.mpr (WithTop.coe_lt_coe.mpr hlt))
  exact hmono.cmp_map_eq p q

theorem order_intCast (m n : ℤ) : order (m : ℚ) (n : ℚ) = order m n :=
  (Int.cast_strictMono (R := ℚ)).cmp_map_eq m n

theorem order_number (kind : ℕ) (p q : Double) :
    order (token kind p "") (token kind q "") = order p q := by
  rw [order_token, order_self, order_self]
  cases order p q <;> rfl

theorem order_text (kind : ℕ) (s t : String) :
    order (token kind (Double.ofRat 0) s) (token kind (Double.ofRat 0) t) = order s t := by
  rw [order_token, order_self, order_self]
  rfl

theorem order_of_kind_lt {k l : ℕ} (h : k < l) (p q : Double) (s t : String) :
    order (token k p s) (token l q t) = .lt := by
  rw [order_token, order_of_lt h]
  rfl

theorem defaultCompare_eq {α β : Type} [LinearOrder β] {lt : α → α → Bool} (encode : α → β)
    (h : ∀ a b, lt a b = true ↔ encode a < encode b) (a b : α) :
    defaultCompare lt a b = order (encode a) (encode b) := by
  unfold defaultCompare
  obtain hlt | heq | hgt := lt_trichotomy (encode a) (encode b)
  · rw [if_pos ((h a b).mpr hlt), order_of_lt hlt]
  · rw [if_neg fun hlt => ((h a b).mp hlt).ne heq, if_neg fun hlt => ((h b a).mp hlt).ne heq.symm,
      heq, order_self]
  · rw [if_neg fun hlt => ((h a b).mp hlt).not_gt hgt, if_pos ((h b a).mpr hgt), order_of_gt hgt]

theorem order_keyList {α : Type} {compare : α → α → Ordering} {letter : α → Token}
    (hcompare : ∀ a b, compare a b = order (letter a) (letter b))
    (hmark : ∀ a, mark 0 < letter a) (as bs : List α) (x y : List Token) :
    order (keyList letter as ++ x) (keyList letter bs ++ y)
      = (compareContainer compare as bs).then (order x y) := by
  induction as generalizing bs with
  | nil =>
      cases bs with
      | nil => simp only [keyList, List.cons_append, List.nil_append, order_cons, order_self]; rfl
      | cons b bs =>
          simp only [keyList, List.cons_append, order_cons, order_of_lt (hmark b)]
          rfl
  | cons a as ih =>
      cases bs with
      | nil =>
          simp only [keyList, List.cons_append, order_cons, order_of_gt (hmark a)]
          rfl
      | cons b bs =>
          simp only [keyList, List.cons_append, order_cons, compareContainer, hcompare, ih,
            Ordering.then_assoc]

/-! ### Words -/

namespace FieldValue

theorem key_eq_cons (value : FieldValue) :
    ∃ number text rest, value.key = token value.kind number text :: rest := by
  cases value <;> exact ⟨_, _, _, rfl⟩

theorem compareTo_of_kind_ne {a b : FieldValue} (h : a.kind ≠ b.kind) :
    compareTo a b = defaultCompare (fun left right => left < right) a.type b.type := by
  cases a <;> cases b <;> first | rfl | exact absurd rfl h

theorem kind_lt_kind {a b : FieldValue} (h : a.kind ≠ b.kind) :
    a.kind < b.kind ↔ a.type < b.type := by
  unfold kind at h ⊢
  split_ifs at h ⊢ <;> omega

theorem order_key_of_kind_ne {a b : FieldValue} (h : a.kind ≠ b.kind) (x y : List Token) :
    order (a.key ++ x) (b.key ++ y) = (compareTo a b).then (order x y) := by
  obtain ⟨p, s, rest, ha⟩ := a.key_eq_cons
  obtain ⟨q, t, rest', hb⟩ := b.key_eq_cons
  rw [compareTo_of_kind_ne h, ha, hb, List.cons_append, List.cons_append, order_cons]
  obtain hlt | hgt := Nat.lt_or_gt_of_ne h
  · have htype := (kind_lt_kind h).mp hlt
    rw [order_of_kind_lt hlt]
    simp [defaultCompare, htype]
  · have htype := (kind_lt_kind h.symm).mp hgt
    have hletter : order (token a.kind p s) (token b.kind q t) = .gt := by
      rw [order_token, order_of_gt hgt]
      rfl
    rw [hletter]
    simp [defaultCompare, htype, htype.not_gt]

theorem order_timestamp (kind : ℕ) (a b : Timestamp) (x y : List Token) :
    order (a.key kind ++ x) (b.key kind ++ y)
      = (defaultCompare Timestamp.lt a b).then (order x y) := by
  have hlt (a b : Timestamp) : Timestamp.lt a b = true
      ↔ toLex (a.seconds, a.nanoseconds) < toLex (b.seconds, b.nanoseconds) := by
    simp [Timestamp.lt, Prod.Lex.toLex_lt_toLex]
  rw [defaultCompare_eq (fun t : Timestamp => toLex (t.seconds, t.nanoseconds)) hlt, order_toLex]
  simp only [Timestamp.key, List.cons_append, List.nil_append, order_cons, order_number,
    order_ofRat, order_intCast, Ordering.then_assoc]

theorem order_geoPoint (a b : GeoPoint) (x y : List Token) :
    order ((geoPoint a).key ++ x) ((geoPoint b).key ++ y)
      = (defaultCompare GeoPoint.lt a b).then (order x y) := by
  have hlt (a b : GeoPoint) : GeoPoint.lt a b = true
      ↔ toLex (a.latitude, a.longitude) < toLex (b.latitude, b.longitude) := by
    rw [Prod.Lex.toLex_lt_toLex]
    unfold GeoPoint.lt
    split
    · rename_i heq
      simp [heq]
    · rename_i hne
      simp [hne]
  rw [defaultCompare_eq (fun p : GeoPoint => toLex (p.latitude, p.longitude)) hlt, order_toLex]
  simp only [key, List.cons_append, List.nil_append, order_cons, order_number, order_ofRat,
    Ordering.then_assoc]

theorem order_boolean (a b : Bool) :
    defaultCompare (fun left right => !left && right) a b
      = order (Double.ofRat (if a then 1 else 0)) (Double.ofRat (if b then 1 else 0)) := by
  rw [order_ofRat]
  refine defaultCompare_eq (fun b : Bool => if b then (1 : ℚ) else 0) ?_ a b
  intro a b
  cases a <;> cases b <;> simp

theorem order_byte (a b : UInt8) :
    defaultCompare (fun left right => left < right) a b
      = order (token 1 (Double.ofRat a.toNat) "") (token 1 (Double.ofRat b.toNat) "") := by
  rw [order_number, order_ofRat]
  refine defaultCompare_eq (fun byte : UInt8 => (byte.toNat : ℚ)) ?_ a b
  intro a b
  simp [UInt8.lt_iff_toNat_lt]

theorem compareTo_number {a b : FieldValue} {p q : Double} (ha : a.key = [token 2 p ""])
    (hb : b.key = [token 2 q ""]) : compareTo a b = order p q := by
  cases a with
  | integer a =>
      cases ha
      cases b with
      | integer b =>
          cases hb
          have hcast := (order_ofRat a.toInt b.toInt).trans (order_intCast _ _)
          exact (compareInt64_eq a b).trans hcast.symm
      | double b =>
          cases hb
          simp only [compareTo]
          rw [compareMixedNumber_eq]
          exact cmp_swap _ _
      | _ => cases hb
  | double a =>
      cases ha
      cases b with
      | integer b => cases hb; exact compareMixedNumber_eq a b
      | double b => cases hb; exact compareDouble_eq a b
      | _ => cases hb
  | _ => cases ha

theorem order_key_number {a b : FieldValue} {p q : Double} (ha : a.key = [token 2 p ""])
    (hb : b.key = [token 2 q ""]) (x y : List Token) :
    order (a.key ++ x) (b.key ++ y) = (compareTo a b).then (order x y) := by
  rw [ha, hb]
  calc order (token 2 p "" :: x) (token 2 q "" :: y)
      = (order (token 2 p "") (token 2 q "")).then (order x y) := order_cons _ _ _ _
    _ = (order p q).then (order x y) := by rw [order_number]
    _ = (compareTo a b).then (order x y) := by rw [compareTo_number ha hb]

theorem mark_lt_token (kind : ℕ) (number : Double) (text : String) :
    mark 0 < token (kind + 1) number text :=
  Prod.Lex.toLex_lt_toLex.mpr (Or.inl kind.succ_pos)

theorem order_segments (k l : DocumentKey) (x y : List Token) :
    order (keyList segmentToken k ++ x) (keyList segmentToken l ++ y)
      = (compareContainer compareString k l).then (order x y) :=
  order_keyList (fun a b => (order_text 1 a b).symm) (fun segment => mark_lt_token 0 _ segment)
    k l x y

theorem order_reference (d e : DatabaseId) (k l : DocumentKey) (x y : List Token) :
    order ((reference d k).key ++ x) ((reference e l).key ++ y)
      = (compareTo (reference d k) (reference e l)).then (order x y) := by
  simp only [key, compareTo, DatabaseId.compareTo, List.cons_append, order_cons, order_text,
    order_segments, Ordering.then_assoc]
  rfl

mutual

/-- A word is not the beginning of another: what follows two words is reached only when the values
are the same in the order. -/
theorem order_key_append (a b : FieldValue) (x y : List Token) :
    order (a.key ++ x) (b.key ++ y) = (compareTo a b).then (order x y) := by
  by_cases hkind : a.kind = b.kind
  · cases a with
    | null =>
        cases b with
        | null => simp only [key, List.cons_append, order_cons, order_self, compareTo]; rfl
        | _ => cases hkind
    | boolean a =>
        cases b with
        | boolean b =>
            simp only [key, List.cons_append, order_cons, order_number, compareTo, order_boolean]
            rfl
        | _ => cases hkind
    | integer a =>
        cases b with
        | integer b => exact order_key_number rfl rfl x y
        | double b => exact order_key_number rfl rfl x y
        | _ => cases hkind
    | double a =>
        cases b with
        | integer b => exact order_key_number rfl rfl x y
        | double b => exact order_key_number rfl rfl x y
        | _ => cases hkind
    | timestamp a =>
        cases b with
        | timestamp b => exact order_timestamp 4 a b x y
        | _ => cases hkind
    | serverTimestamp a =>
        cases b with
        | serverTimestamp b => exact order_timestamp 5 a b x y
        | _ => cases hkind
    | string a =>
        cases b with
        | string b => simp only [key, List.cons_append, order_cons, order_text, compareTo]; rfl
        | _ => cases hkind
    | blob a =>
        cases b with
        | blob b =>
            simp only [key, List.cons_append, order_cons, order_self, compareTo]
            exact order_keyList order_byte (fun byte => mark_lt_token 0 _ _) a b x y
        | _ => cases hkind
    | reference d k =>
        cases b with
        | reference e l => exact order_reference d e k l x y
        | _ => cases hkind
    | geoPoint a =>
        cases b with
        | geoPoint b => exact order_geoPoint a b x y
        | _ => cases hkind
    | array values =>
        cases b with
        | array others =>
            simp only [key, List.cons_append, order_cons, order_self, compareTo]
            exact order_keyArray_append values others x y
        | _ => cases hkind
    | object entries =>
        cases b with
        | object others =>
            simp only [key, List.cons_append, order_cons, order_self, compareTo]
            exact order_keyObject_append entries others x y
        | _ => cases hkind
  · exact order_key_of_kind_ne hkind x y
termination_by structural a

theorem order_keyArray_append (as bs : List FieldValue) (x y : List Token) :
    order (keyArray as ++ x) (keyArray bs ++ y) = (compareArray as bs).then (order x y) := by
  cases as with
  | nil =>
      cases bs with
      | nil => simp only [keyArray, List.cons_append, order_cons, order_self, compareArray]; rfl
      | cons b bs =>
          simp only [keyArray, List.cons_append, order_cons, compareArray]
          rfl
  | cons a as =>
      cases bs with
      | nil =>
          simp only [keyArray, List.cons_append, order_cons, compareArray]
          rfl
      | cons b bs =>
          simp only [keyArray, List.cons_append, List.append_assoc, order_cons, order_self,
            compareArray]
          rw [order_key_append a b, order_keyArray_append as bs, Ordering.then_assoc]
          rfl
termination_by structural as

theorem order_keyObject_append (as bs : List (String × FieldValue)) (x y : List Token) :
    order (keyObject as ++ x) (keyObject bs ++ y) = (compareObject as bs).then (order x y) := by
  cases as with
  | nil =>
      cases bs with
      | nil => simp only [keyObject, List.cons_append, order_cons, order_self, compareObject]; rfl
      | cons b bs =>
          obtain ⟨n, b⟩ := b
          simp only [keyObject, List.cons_append, order_cons, compareObject,
            order_of_lt (mark_lt_token 0 _ _)]
          rfl
  | cons a as =>
      obtain ⟨m, a⟩ := a
      cases bs with
      | nil =>
          simp only [keyObject, List.cons_append, order_cons, compareObject,
            order_of_gt (mark_lt_token 0 _ _)]
          rfl
      | cons b bs =>
          obtain ⟨n, b⟩ := b
          simp only [keyObject, List.cons_append, List.append_assoc, order_cons, order_text,
            compareObject]
          rw [order_key_append a b, order_keyObject_append as bs, Ordering.then_assoc,
            Ordering.then_assoc]
          rfl
termination_by structural as

end

theorem compareTo_eq (a b : FieldValue) : compareTo a b = order a.key b.key := by
  have h := order_key_append a b [] []
  rw [List.append_nil, List.append_nil, order_self, Ordering.then_eq] at h
  exact h.symm

/-- Comparisons chain, whatever kinds of values they meet on the way. -/
instance : Std.TransCmp compareTo := transCmp_of_encoding key compareTo_eq

/-! ### What the app reads -/

/-- A value as the app gets it. A server timestamp that is pending is read as null. -/
def value : FieldValue → Value
  | .null => .null
  | .boolean value => .boolean value
  | .integer value => .integer value.toInt
  | .double value => .double value.value
  | .timestamp value => .timestamp value.seconds
  | .serverTimestamp _ => .null
  | .string value => .string value
  | .blob _ => .composite 0
  | .reference _ _ => .composite 1
  | .geoPoint _ => .composite 2
  | .array _ => .composite 3
  | .object _ => .composite 4

section Number

variable {a b : FieldValue} {x y : Double}

theorem key_of_asDouble (h : a.value.asDouble = some x) : a.key = [a.value.key] := by
  cases a with
  | boolean value => rfl
  | integer value => rfl
  | double value => rfl
  | _ => cases h

/-- What is read as a number is compared as `order(by:)` has it. -/
theorem compareTo_of_asDouble (hx : a.value.asDouble = some x) (hy : b.value.asDouble = some y) :
    compareTo a b = order a.value.key b.value.key := by
  rw [compareTo_eq, key_of_asDouble hx, key_of_asDouble hy, order_cons, order_self]
  cases order a.value.key b.value.key <;> rfl

end Number

end FieldValue

end ProductivityApp.Firestore
