import Mathlib.Algebra.Order.Field.Rat
import Mathlib.Algebra.Order.Floor.Ring
import Mathlib.Algebra.Order.Group.Unbundled.Int
import Mathlib.Data.Nat.Size
import Mathlib.Data.Rat.Floor
import Mathlib.Order.WithBot
import Mathlib.Tactic.Linarith
import Mathlib.Tactic.Positivity

/-!
# Doubles and integers

A double is not-a-number, an infinity, a negative zero or a rational with 53 significant bits and an
exponent in range. Casting an integer to a double rounds to nearest, ties to even; casting a double
to an integer truncates. The two casts lose nothing exactly where the other side can be represented,
which is what a comparison across the two types has to rely on.
-/

/-- The rationals that are the value of a double. -/
def Binary64.Representable (q : ℚ) : Prop :=
  ∃ m e : ℤ, |m| < 2 ^ 53 ∧ -1074 ≤ e ∧ e ≤ 971 ∧ q = m * (2 : ℚ) ^ e

/-- An IEEE 754 double, with one bit pattern for not-a-number. -/
inductive Binary64 where
  | nan
  | infinity (negative : Bool)
  | negativeZero
  | finite (q : ℚ) (h : Binary64.Representable q)
  deriving DecidableEq

namespace Binary64

/-- The place of a double among the extended numbers, not-a-number first. -/
def value : Binary64 → WithBot (WithBot (WithTop ℚ))
  | .nan => ⊥
  | .infinity true => ((⊥ : WithBot (WithTop ℚ)) : WithBot (WithBot (WithTop ℚ)))
  | .infinity false => (((⊤ : WithTop ℚ) : WithBot (WithTop ℚ)) : WithBot (WithBot (WithTop ℚ)))
  | .negativeZero => (((0 : ℚ) : WithTop ℚ) : WithBot (WithTop ℚ))
  | .finite q _ => ((q : WithTop ℚ) : WithBot (WithTop ℚ))

/-! ### Rounding -/

/-- How many bits of `n` do not fit into a significand. -/
def excess (n : ℕ) : ℕ := n.size - 53

/-- Round to nearest, ties to even, at 53 bits. -/
def roundNat (n : ℕ) : ℕ :=
  let unit := 2 ^ excess n
  let rest := n % unit
  if 2 * rest < unit ∨ (2 * rest = unit ∧ n / unit % 2 = 0) then n - rest else n - rest + unit

def round (n : ℤ) : ℤ := n.sign * roundNat n.natAbs

/-- Truncate towards zero. -/
def truncate (q : ℚ) : ℤ := if 0 ≤ q then ⌊q⌋ else ⌈q⌉

theorem excess_eq_zero {n : ℕ} (h : n < 2 ^ 53) : excess n = 0 :=
  Nat.sub_eq_zero_of_le (Nat.size_le.mpr h)

theorem roundNat_of_dvd {n : ℕ} (h : 2 ^ excess n ∣ n) : roundNat n = n := by
  have hrest : n % 2 ^ excess n = 0 := Nat.mod_eq_zero_of_dvd h
  have hpos : 0 < 2 ^ excess n := by positivity
  simp [roundNat, hrest, hpos]

theorem round_eq_self {n : ℤ} (h : 2 ^ excess n.natAbs ∣ n.natAbs) : round n = n := by
  rw [round, roundNat_of_dvd h, Int.sign_mul_natAbs]

/-! ### What a double can represent -/

theorem Representable.neg {q : ℚ} (h : Representable q) : Representable (-q) := by
  obtain ⟨m, e, hm, hlo, hhi, rfl⟩ := h
  exact ⟨-m, e, by rwa [abs_neg], hlo, hhi, by push_cast; ring⟩

theorem representable_zero : Representable 0 :=
  ⟨0, 0, by norm_num, by norm_num, by norm_num, by simp⟩

theorem representable_mul_pow {c k : ℕ} (hc : c ≤ 2 ^ 53) (hk : k ≤ 970) :
    Representable ((c * 2 ^ k : ℕ) : ℚ) := by
  obtain hlt | rfl := hc.lt_or_eq
  · refine ⟨c, k, ?_, by omega, by omega, by push_cast; rw [zpow_natCast]⟩
    rw [abs_of_nonneg (by positivity)]
    exact_mod_cast hlt
  · refine ⟨2 ^ 52, k + 1, by norm_num, by omega, by omega, ?_⟩
    push_cast
    rw [zpow_add₀ (by norm_num), zpow_natCast, zpow_one]
    ring

theorem roundNat_eq (n : ℕ) : ∃ c ≤ 2 ^ 53, roundNat n = c * 2 ^ excess n := by
  have hlt : n / 2 ^ excess n < 2 ^ 53 := by
    rw [Nat.div_lt_iff_lt_mul (by positivity), ← pow_add]
    refine (Nat.lt_size_self n).trans_le (Nat.pow_le_pow_right (by norm_num) ?_)
    unfold excess
    omega
  have hdown : n - n % 2 ^ excess n = n / 2 ^ excess n * 2 ^ excess n := by
    have hdiv := Nat.div_add_mod' n (2 ^ excess n)
    omega
  simp only [roundNat]
  split
  · exact ⟨n / 2 ^ excess n, hlt.le, hdown⟩
  · exact ⟨n / 2 ^ excess n + 1, hlt, by rw [hdown, Nat.succ_mul]⟩

theorem representable_round {n : ℤ} (h : n.natAbs < 2 ^ 64) : Representable (round n) := by
  have hexcess : excess n.natAbs ≤ 970 := by
    have hsize := Nat.size_le.mpr h
    unfold excess
    omega
  obtain ⟨c, hc, hround⟩ := roundNat_eq n.natAbs
  have hnat : Representable (roundNat n.natAbs : ℚ) := by
    rw [hround]
    exact representable_mul_pow hc hexcess
  obtain hneg | rfl | hpos := lt_trichotomy n 0
  · simpa [round, Int.sign_eq_neg_one_of_neg hneg] using hnat.neg
  · simpa [round] using representable_zero
  · simpa [round, Int.sign_eq_one_of_pos hpos] using hnat

/-- A double that is an integer is not rounded. -/
theorem round_of_representable {n : ℤ} (h : Representable n) : round n = n := by
  apply round_eq_self
  by_cases hsmall : n.natAbs < 2 ^ 53
  · simp [excess_eq_zero hsmall]
  obtain ⟨m, e, hm, -, -, hn⟩ := h
  have hm' : m.natAbs < 2 ^ 53 := by
    have := abs_lt.mp hm
    omega
  obtain ⟨k, rfl⟩ | ⟨k, hk⟩ : (∃ k : ℕ, e = k) ∨ ∃ k : ℕ, e = -(k + 1 : ℕ) := by
    obtain hneg | hpos := lt_or_ge e 0
    · exact Or.inr ⟨(-e - 1).toNat, by omega⟩
    · exact Or.inl ⟨e.toNat, by omega⟩
  · have hint : n = m * 2 ^ k := by
      rw [zpow_natCast] at hn
      exact_mod_cast hn
    have habs : n.natAbs = m.natAbs * 2 ^ k := by
      rw [hint, Int.natAbs_mul, Int.natAbs_pow]
      rfl
    have hsize : n.natAbs.size ≤ 53 + k := by
      rw [Nat.size_le, habs, pow_add]
      exact Nat.mul_lt_mul_of_pos_right hm' (by positivity)
    have hexcess : excess n.natAbs ≤ k := by
      unfold excess
      omega
    refine (pow_dvd_pow 2 hexcess).trans ?_
    rw [habs]
    exact Nat.dvd_mul_left _ _
  · have hint : n * 2 ^ (k + 1) = m := by
      rw [hk, zpow_neg, zpow_natCast] at hn
      have hpow : (2 : ℚ) ^ (k + 1) ≠ 0 := by positivity
      have hmul : (n : ℚ) * 2 ^ (k + 1) = m := by rw [hn]; field_simp
      exact_mod_cast hmul
    have habs : n.natAbs * 2 ^ (k + 1) = m.natAbs := by
      rw [← hint, Int.natAbs_mul, Int.natAbs_pow]
      rfl
    have hle : n.natAbs ≤ m.natAbs := by
      rw [← habs]
      exact Nat.le_mul_of_pos_right _ (by positivity)
    omega

/-- A double beyond 53 bits is an integer. -/
theorem exists_int_of_le {q : ℚ} (h : Representable q) (hlarge : 2 ^ 53 ≤ |q|) :
    ∃ n : ℤ, q = n := by
  obtain ⟨m, e, hm, -, -, rfl⟩ := h
  obtain hneg | hpos := lt_or_ge e 0
  · exfalso
    have hpow : (2 : ℚ) ^ e ≤ 1 := zpow_le_one_of_nonpos₀ (by norm_num) hneg.le
    have hm' : |(m : ℚ)| < 2 ^ 53 := by exact_mod_cast hm
    have hle : |(m : ℚ) * 2 ^ e| ≤ |(m : ℚ)| := by
      rw [abs_mul, abs_of_pos (zpow_pos (by norm_num : (0 : ℚ) < 2) e)]
      exact mul_le_of_le_one_right (abs_nonneg _) hpow
    linarith
  · refine ⟨m * 2 ^ e.toNat, ?_⟩
    push_cast
    rw [← zpow_natCast, Int.toNat_of_nonneg hpos]

/-! ### Truncation -/

theorem lt_of_truncate_lt {q : ℚ} {n : ℤ} (h : truncate q < n) : q < n := by
  unfold truncate at h
  split at h
  · exact Int.floor_lt.mp h
  · exact (Int.le_ceil q).trans_lt (by exact_mod_cast h)

theorem lt_of_lt_truncate {q : ℚ} {n : ℤ} (h : n < truncate q) : (n : ℚ) < q := by
  unfold truncate at h
  split at h
  · exact (by exact_mod_cast h : (n : ℚ) < ⌊q⌋).trans_le (Int.floor_le q)
  · exact Int.lt_ceil.mp h

theorem abs_truncate_le (q : ℚ) : |(truncate q : ℚ)| ≤ |q| := by
  unfold truncate
  split
  · rename_i hpos
    rw [abs_of_nonneg hpos, abs_of_nonneg (by exact_mod_cast Int.floor_nonneg.mpr hpos)]
    exact Int.floor_le q
  · rename_i hneg
    have hneg' : q ≤ 0 := (not_le.mp hneg).le
    have hceil : (⌈q⌉ : ℚ) ≤ 0 := by exact_mod_cast Int.ceil_le.mpr (by simpa using hneg')
    rw [abs_of_nonpos hneg', abs_of_nonpos hceil]
    exact neg_le_neg (Int.le_ceil q)

theorem truncate_intCast (n : ℤ) : truncate n = n := by
  unfold truncate
  split <;> simp

/-- What a double is truncated to is not rounded when cast back. -/
theorem round_truncate {q : ℚ} (h : Representable q) : round (truncate q) = truncate q := by
  by_cases hlarge : 2 ^ 53 ≤ |q|
  · obtain ⟨n, rfl⟩ := exists_int_of_le h hlarge
    rw [truncate_intCast]
    exact round_of_representable h
  · have hsmall : |(truncate q : ℚ)| < 2 ^ 53 := (abs_truncate_le q).trans_lt (not_le.mp hlarge)
    have hnat : (truncate q).natAbs < 2 ^ 53 := by
      have hint : |truncate q| < 2 ^ 53 := by exact_mod_cast hsmall
      have := abs_lt.mp hint
      omega
    apply round_eq_self
    simp [excess_eq_zero hnat]

end Binary64
