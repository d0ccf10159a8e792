import Mathlib.Order.Compare
import ProductivityApp.Lib.Binary64

/-!
# Comparing numbers

`util/comparison.cc` of the Firestore client. Integers and doubles are compared with each other, and
neither can be cast to the other without loss, so the comparison of an integer with a double goes
through both casts. It is exact all the same.
-/

namespace ProductivityApp.Firestore

/-- `isnan` -/
def isnan : Binary64 → Bool
  | .nan => true
  | _ => false

/-- `<` on doubles, false as soon as not-a-number is involved. -/
def doubleLt (left right : Binary64) : Bool :=
  !isnan left && !isnan right && left.value < right.value

/-- `Comparator<double>::Compare` -/
def compareDouble (left right : Binary64) : Ordering :=
  if doubleLt left right then .lt
  else if doubleLt right left then .gt
  else if !isnan left && !isnan right && left.value = right.value then .eq
  else if !isnan right then .lt
  else if !isnan left then .gt
  else .eq

/-- `DefaultComparator<int64_t>::Compare` -/
def compareInt64 (left right : Int64) : Ordering :=
  if left < right then .lt else if right < left then .gt else .eq

/-- `INT64_MIN_VALUE_AS_DOUBLE` and `INT64_MAX_VALUE_AS_DOUBLE`. The latter is rounded up. -/
def int64MinValueAsDouble : Binary64 :=
  .finite (-2 ^ 63) ⟨-1, 63, by norm_num, by norm_num, by norm_num, by norm_num⟩

def int64MaxValueAsDouble : Binary64 :=
  .finite (2 ^ 63) ⟨1, 63, by norm_num, by norm_num, by norm_num, by norm_num⟩

/-- `static_cast<int64_t>`, for a double in range -/
def castToInt64 : Binary64 → Int64
  | .finite q _ => Int64.ofInt (Binary64.truncate q)
  | _ => 0

theorem natAbs_toInt_lt (n : Int64) : n.toInt.natAbs < 2 ^ 64 := by
  have hlt := n.toInt_lt
  have hle := n.le_toInt
  omega

/-- `static_cast<double>` -/
def castToDouble (n : Int64) : Binary64 :=
  .finite (Binary64.round n.toInt) (Binary64.representable_round (natAbs_toInt_lt n))

def compareMixedNumber (doubleValue : Binary64) (int64Value : Int64) : Ordering :=
  if doubleLt doubleValue int64MinValueAsDouble then .lt
  else if !isnan doubleValue && !doubleLt doubleValue int64MaxValueAsDouble then .gt
  else if isnan doubleValue then .lt
  else
    match compareInt64 (castToInt64 doubleValue) int64Value with
    | .eq => compareDouble doubleValue (castToDouble int64Value)
    | different => different

/-- A 64-bit integer among the extended numbers. -/
def int64Value (n : Int64) : WithBot (WithBot (WithTop ℚ)) :=
  (((n.toInt : ℚ) : WithTop ℚ) : WithBot (WithTop ℚ))

theorem isnan_eq_true {d : Binary64} : isnan d = true ↔ d.value = ⊥ := by
  cases d with
  | infinity negative => cases negative <;> simp [isnan, Binary64.value]
  | _ => simp [isnan, Binary64.value]

theorem doubleLt_eq_true {left right : Binary64} (hright : isnan right = false) :
    doubleLt left right = true ↔ isnan left = false ∧ left.value < right.value := by
  simp [doubleLt, hright]

theorem compareDouble_eq (left right : Binary64) :
    compareDouble left right = cmp left.value right.value := by
  have hnan (d : Binary64) : isnan d = true ∨ isnan d = false := by cases isnan d <;> simp
  obtain hleft | hleft := hnan left
  · have hbot := isnan_eq_true.mp hleft
    obtain hright | hright := hnan right
    · have hbot' := isnan_eq_true.mp hright
      rw [hbot, hbot', cmp_self_eq_eq]
      simp [compareDouble, doubleLt, hleft, hright]
    · have hne : right.value ≠ ⊥ := fun heq => by simp [isnan_eq_true.mpr heq] at hright
      rw [(cmp_eq_lt_iff _ _).mpr (hbot ▸ bot_lt_iff_ne_bot.mpr hne)]
      simp [compareDouble, doubleLt, hleft, hright]
  · obtain hright | hright := hnan right
    · have hbot := isnan_eq_true.mp hright
      have hne : left.value ≠ ⊥ := fun heq => by simp [isnan_eq_true.mpr heq] at hleft
      rw [(cmp_eq_gt_iff _ _).mpr (hbot ▸ bot_lt_iff_ne_bot.mpr hne)]
      simp [compareDouble, doubleLt, hleft, hright]
    · obtain hlt | heq | hgt := lt_trichotomy left.value right.value
      · rw [(cmp_eq_lt_iff _ _).mpr hlt]
        simp [compareDouble, doubleLt, hleft, hright, hlt]
      · rw [(cmp_eq_eq_iff _ _).mpr heq]
        simp [compareDouble, doubleLt, hleft, hright, heq]
      · rw [(cmp_eq_gt_iff _ _).mpr hgt]
        simp [compareDouble, doubleLt, hleft, hright, hgt, hgt.not_gt]

theorem compareInt64_eq (left right : Int64) :
    compareInt64 left right = cmp left.toInt right.toInt := by
  unfold cmp cmpUsing
  simp only [compareInt64, Int64.lt_iff_toInt_lt]

theorem finite_lt_finite {p q : ℚ} {hp : Binary64.Representable p}
    {hq : Binary64.Representable q} :
    (Binary64.finite p hp).value < (Binary64.finite q hq).value ↔ p < q := by
  simp [Binary64.value]

theorem finite_lt_int64 {q : ℚ} {h : Binary64.Representable q} {n : Int64} :
    (Binary64.finite q h).value < int64Value n ↔ q < n.toInt := by
  simp [Binary64.value, int64Value]

theorem int64_lt_finite {q : ℚ} {h : Binary64.Representable q} {n : Int64} :
    int64Value n < (Binary64.finite q h).value ↔ (n.toInt : ℚ) < q := by
  simp [Binary64.value, int64Value]

/-- Within the range of 64-bit integers the two casts decide correctly between a finite double and
an integer: the truncated double decides unless it is the integer itself, and then the integer is
not rounded when it is cast back. -/
theorem compareCasts_eq {q : ℚ} {h : Binary64.Representable q} (n : Int64)
    (hlo : (-2 ^ 63 : ℚ) ≤ q) (hhi : q < 2 ^ 63) :
    (match compareInt64 (castToInt64 (.finite q h)) n with
      | .eq => compareDouble (.finite q h) (castToDouble n)
      | different => different)
      = cmp (Binary64.finite q h).value (int64Value n) := by
  have hcast : (castToInt64 (.finite q h)).toInt = Binary64.truncate q := by
    apply Int64.toInt_ofInt_of_le
    · by_contra hlt
      have hq := Binary64.lt_of_truncate_lt (not_le.mp hlt)
      push_cast at hq
      linarith
    · by_contra hge
      have hle : ((2 ^ 63 : ℤ) : ℚ) ≤ |(Binary64.truncate q : ℚ)| :=
        (by exact_mod_cast not_lt.mp hge : ((2 ^ 63 : ℤ) : ℚ) ≤ Binary64.truncate q).trans
          (le_abs_self _)
      have hpos : 0 ≤ q := by
        by_contra hneg
        have hlt := Binary64.lt_of_lt_truncate
          (show (0 : ℤ) < Binary64.truncate q by omega)
        push_cast at hlt
        linarith
      have habs := hle.trans (Binary64.abs_truncate_le q)
      rw [abs_of_nonneg hpos] at habs
      push_cast at habs
      linarith
  rw [compareInt64_eq, hcast]
  obtain hlt | heq | hgt := lt_trichotomy (Binary64.truncate q) n.toInt
  · rw [(cmp_eq_lt_iff _ _).mpr hlt]
    exact ((cmp_eq_lt_iff _ _).mpr (finite_lt_int64.mpr (Binary64.lt_of_truncate_lt hlt))).symm
  · have hround : Binary64.round n.toInt = n.toInt := by
      rw [← heq]
      exact Binary64.round_truncate h
    have hvalue : (castToDouble n).value = int64Value n := by
      simp [castToDouble, Binary64.value, int64Value, hround]
    rw [heq, cmp_self_eq_eq, ← hvalue, ← compareDouble_eq]
  · rw [(cmp_eq_gt_iff _ _).mpr hgt]
    exact ((cmp_eq_gt_iff _ _).mpr (int64_lt_finite.mpr (Binary64.lt_of_lt_truncate hgt))).symm

/-- **Numbers of different types are compared exactly.** For every double and every 64-bit integer,
the comparison by casts is the comparison of their values, with not-a-number before every integer:
no rounding of the casts is ever seen. -/
theorem compareMixedNumber_eq (d : Binary64) (n : Int64) :
    compareMixedNumber d n = cmp d.value (int64Value n) := by
  have hlo : (-2 ^ 63 : ℚ) ≤ n.toInt := by exact_mod_cast n.le_toInt
  have hhi : (n.toInt : ℚ) < 2 ^ 63 := by exact_mod_cast n.toInt_lt
  have hzero : Binary64.Representable 0 := Binary64.representable_zero
  have hfinite (q : ℚ) (h : Binary64.Representable q) :
      compareMixedNumber (.finite q h) n = cmp (Binary64.finite q h).value (int64Value n) := by
    have hmin : doubleLt (.finite q h) int64MinValueAsDouble = true ↔ q < -2 ^ 63 := by
      rw [doubleLt_eq_true rfl]
      exact ⟨fun hlt => finite_lt_finite.mp hlt.2, fun hlt => ⟨rfl, finite_lt_finite.mpr hlt⟩⟩
    have hmax : doubleLt (.finite q h) int64MaxValueAsDouble = true ↔ q < 2 ^ 63 := by
      rw [doubleLt_eq_true rfl]
      exact ⟨fun hlt => finite_lt_finite.mp hlt.2, fun hlt => ⟨rfl, finite_lt_finite.mpr hlt⟩⟩
    by_cases hbelow : q < -2 ^ 63
    · rw [compareMixedNumber, if_pos (hmin.mpr hbelow)]
      exact ((cmp_eq_lt_iff _ _).mpr (finite_lt_int64.mpr (hbelow.trans_le hlo))).symm
    · rw [compareMixedNumber, if_neg (fun hlt => hbelow (hmin.mp hlt))]
      by_cases habove : q < 2 ^ 63
      · have hnot : (!isnan (Binary64.finite q h)
            && !doubleLt (.finite q h) int64MaxValueAsDouble) = false := by
          simp [hmax.mpr habove]
        rw [hnot, if_neg (by simp), if_neg (by simp [isnan])]
        exact compareCasts_eq n (not_lt.mp hbelow) habove
      · have hover : (!isnan (Binary64.finite q h)
            && !doubleLt (.finite q h) int64MaxValueAsDouble) = true := by
          simp [isnan, Bool.eq_false_iff.mpr fun hlt => habove (hmax.mp hlt)]
        rw [if_pos hover]
        exact ((cmp_eq_gt_iff _ _).mpr
          (int64_lt_finite.mpr (hhi.trans_le (not_lt.mp habove)))).symm
  cases d with
  | nan =>
      have hlt : Binary64.nan.value < int64Value n := by simp [Binary64.value, int64Value]
      rw [(cmp_eq_lt_iff _ _).mpr hlt]
      rfl
  | infinity negative =>
      cases negative with
      | true =>
          have hbelow : doubleLt (.infinity true) int64MinValueAsDouble = true := by
            rw [doubleLt_eq_true rfl]
            exact ⟨rfl, by simp [Binary64.value, int64MinValueAsDouble]⟩
          rw [compareMixedNumber, if_pos hbelow]
          exact ((cmp_eq_lt_iff _ _).mpr (by simp [Binary64.value, int64Value])).symm
      | false =>
          have hbelow : doubleLt (.infinity false) int64MinValueAsDouble = false := by
            simp [doubleLt, Binary64.value, int64MinValueAsDouble]
          have habove : doubleLt (.infinity false) int64MaxValueAsDouble = false := by
            simp [doubleLt, Binary64.value, int64MaxValueAsDouble]
          rw [compareMixedNumber, hbelow, habove, if_neg (by simp), if_pos (by simp [isnan])]
          refine ((cmp_eq_gt_iff _ _).mpr ?_).symm
          exact WithBot.coe_lt_coe.mpr (WithBot.coe_lt_coe.mpr (WithTop.coe_lt_top _))
  | negativeZero =>
      -- Negative zero goes through the casts as zero does.
      have hlt (d : Binary64) : doubleLt .negativeZero d = doubleLt (.finite 0 hzero) d := rfl
      have hcast : castToInt64 .negativeZero = castToInt64 (.finite 0 hzero) := by
        simp [castToInt64, Binary64.truncate]
      have hcompare (d : Binary64) :
          compareDouble .negativeZero d = compareDouble (.finite 0 hzero) d := by
        rw [compareDouble_eq, compareDouble_eq]
        rfl
      have hnan : isnan .negativeZero = isnan (.finite 0 hzero) := rfl
      have hsame : compareMixedNumber .negativeZero n = compareMixedNumber (.finite 0 hzero) n := by
        simp only [compareMixedNumber, hlt, hcast, hcompare, hnan]
      rw [hsame, hfinite 0 hzero]
      rfl
  | finite q h => exact hfinite q h

end ProductivityApp.Firestore
