import Mathlib
import WireSchema.Proofs.Binary64.NearestEven

/-!
# Integers scaled down and up

An integer of 32 bits that is divided by a number of 32 bits and multiplied by it again is still the
nearest integer. The quotient and the product are off by at most one part in `2 ^ 53` each, which
together is far less than a half. All that is used of them is that they are rounded to the nearest.

* `value?_ofInt` — an integer of 53 bits is represented exactly;
* `roundsTo_divNat`, `roundsTo_mulNat` — quotients and products are rounded to the nearest;
* `halfAway_of_roundsTo` — an integer that is scaled down and up is found again;
* `nearestInt?_ofInt`, `nearestInt?_mulNat_divNat` — the same for the numbers of the format.
-/

namespace WireSchema.Binary64

/-! ### Integers -/

/-- A natural number of 53 bits is the value of a finite number. -/
theorem exists_isCanonical {n : ℕ} (h : n < 0x20000000000000) :
    ∃ m e, IsCanonical m e ∧ (m : ℚ) * 2 ^ e = n := by
  by_cases hn : n = 0
  · exact ⟨0, -1074, by decide, by rw [hn, Nat.cast_zero, zero_mul]⟩
  have hlog : n.log2 < 53 := (Nat.log2_lt hn).mpr h
  have hlo := Nat.log2_self_le hn
  have hhi := @Nat.lt_log2_self n
  obtain ⟨k, hk⟩ := Nat.exists_eq_add_of_le (Nat.lt_succ_iff.mp hlog)
  refine ⟨n * 2 ^ k, -(k : ℤ), ⟨?_, by omega, by omega, Or.inl ?_⟩, ?_⟩
  · calc n * 2 ^ k < 2 ^ (n.log2 + 1) * 2 ^ k := Nat.mul_lt_mul_of_pos_right hhi (Nat.two_pow_pos k)
      _ = 2 ^ (n.log2 + k + 1) := by rw [← pow_add]; congr 1; omega
      _ = 0x20000000000000 := by rw [← hk]; norm_num
  · calc 0x10000000000000 = 2 ^ (n.log2 + k) := by rw [← hk]; norm_num
      _ = 2 ^ n.log2 * 2 ^ k := pow_add 2 _ _
      _ ≤ n * 2 ^ k := Nat.mul_le_mul_right _ hlo
  · rw [zpow_neg, zpow_natCast]
    push_cast
    exact mul_inv_cancel_right₀ (by positivity) _

/-- The magnitude of an integer, with its sign. -/
theorem withSign_natAbs (v : ℤ) : withSign (decide (v < 0)) v.natAbs = v := by
  unfold withSign
  by_cases hv : v < 0
  · rw [if_pos (decide_eq_true hv), ← Int.cast_natCast, Int.ofNat_natAbs_of_nonpos (le_of_lt hv),
      Int.cast_neg, neg_neg]
  · rw [if_neg (by rwa [decide_eq_true_eq]), ← Int.cast_natCast,
      Int.natAbs_of_nonneg (not_lt.mp hv)]

theorem abs_intCast_lt {v : ℤ} {bound : ℕ} (h : v.natAbs < bound) : |(v : ℚ)| < bound := by
  rw [← Int.cast_abs, ← Nat.cast_natAbs]
  exact_mod_cast h

/-- An integer of 53 bits is represented exactly. -/
theorem value?_ofInt {v : ℤ} (h : v.natAbs < 0x20000000000000) :
    (ofInt v).value? = some (v : ℚ) := by
  obtain ⟨m, e, hc, hvalue⟩ := exists_isCanonical h
  rw [ofInt, ofRatio_eq_nearest _ _ Nat.one_pos, Nat.cast_one, div_one, ← hvalue,
    nearest_of_isCanonical _ hc, value?, hvalue, withSign_natAbs]

/-- The nearest integer of an integer is that integer. -/
theorem nearestInt?_ofInt {v : ℤ} (h : v.natAbs < 0x20000000000000) :
    (ofInt v).nearestInt? = some v := by
  have hclose : |(v : ℚ) - v| < 1 / 2 := by
    rw [sub_self, abs_zero]
    norm_num
  rw [nearestInt?_eq, value?_ofInt h, Option.map_some, halfAway_eq_of_abs_sub_lt hclose]

/-! ### Quotient and product -/

/-- Zero, and the numbers that are neither very small nor very large. -/
def InRange (a : ℚ) : Prop :=
  a = 0 ∨ 2 ^ (-1022 : ℤ) ≤ |a| ∧ |a| < 2 ^ (1000 : ℤ)

theorem inRange_of_bounds {a : ℚ} (hlo : 1 / 0x100000000 ≤ |a|) (hhi : |a| < 0x200000000) :
    InRange a := by
  have hsmall : (2 : ℚ) ^ (-1022 : ℤ) ≤ 2 ^ (-32 : ℤ) :=
    zpow_le_zpow_right₀ (by norm_num) (by norm_num)
  have hbig : (2 : ℚ) ^ (33 : ℤ) ≤ 2 ^ (1000 : ℤ) := zpow_le_zpow_right₀ (by norm_num) (by norm_num)
  right
  exact ⟨le_trans hsmall (le_trans (by norm_num) hlo),
    lt_of_lt_of_le (lt_of_lt_of_le hhi (by norm_num)) hbig⟩

/-- A fraction that is scaled by a power of two, with a sign, is rounded to the nearest. -/
theorem roundsTo_scaled (negative : Bool) (num : ℕ) {den : ℕ} (e : ℤ) (hden : 0 < den) {a : ℚ}
    (ha : a = withSign negative (num / den * 2 ^ e)) (hrange : InRange a) :
    ∃ q, (ofRatio negative (scaled num den e).1 (scaled num den e).2).value? = some q ∧
      RoundsTo a q := by
  have hx : (0 : ℚ) ≤ num / den * 2 ^ e := by positivity
  rw [ofRatio_eq_nearest _ _ (scaled_den_pos e hden), scaled_ratio]
  generalize (num : ℚ) / den * 2 ^ e = x at *
  subst ha
  have hmagnitude : x = 0 ∨ 2 ^ (-1022 : ℤ) ≤ x ∧ x < 2 ^ (1000 : ℤ) := by
    cases negative with
    | false => simpa [InRange, abs_of_nonneg hx] using hrange
    | true => simpa [InRange, abs_of_nonneg hx] using hrange
  obtain ⟨r, hr, hround⟩ := roundsTo_nearest negative hmagnitude
  exact ⟨withSign negative r, hr, hround.withSign negative⟩

/-- A quotient in range is rounded to the nearest. -/
theorem roundsTo_divNat {x : Binary64} {a : ℚ} {n : ℕ} (hx : x.value? = some a) (hn : 0 < n)
    (hrange : InRange (a / n)) : ∃ q, (x.divNat n).value? = some q ∧ RoundsTo (a / n) q := by
  cases x with
  | nan => cases hx
  | infinity negative => cases hx
  | finite negative m e hc =>
    cases hx
    apply roundsTo_scaled negative m e hn _ hrange
    cases negative with
    | false =>
      simp only [withSign_false]
      ring
    | true =>
      simp only [withSign_true]
      ring

/-- A product in range is rounded to the nearest. -/
theorem roundsTo_mulNat {x : Binary64} {a : ℚ} {n : ℕ} (hx : x.value? = some a)
    (hrange : InRange (a * n)) : ∃ q, (x.mulNat n).value? = some q ∧ RoundsTo (a * n) q := by
  cases x with
  | nan => cases hx
  | infinity negative => cases hx
  | finite negative m e hc =>
    cases hx
    apply roundsTo_scaled negative (m * n) e Nat.one_pos _ hrange
    push_cast
    cases negative with
    | false =>
      simp only [withSign_false]
      ring
    | true =>
      simp only [withSign_true]
      ring

/-! ### Scaling down and up -/

/-- The error of a rounded quotient, scaled up by the divisor. -/
theorem abs_mul_sub_le {v : ℤ} {n : ℕ} {q : ℚ} (hn : 0 < n) (hq : RoundsTo (v / n) q) :
    |q * n - v| ≤ |(v : ℚ)| * 2 ^ (-53 : ℤ) := by
  have hn' : (0 : ℚ) < n := by exact_mod_cast hn
  have hscaled : q * n - v = -((v / n - q) * n) := by
    field_simp
    ring
  rw [hscaled, abs_neg, abs_mul, abs_of_pos hn']
  calc |(v : ℚ) / n - q| * n ≤ |(v : ℚ) / n| * 2 ^ (-53 : ℤ) * n :=
        mul_le_mul_of_nonneg_right hq.abs_sub_le (le_of_lt hn')
    _ = |(v : ℚ)| * 2 ^ (-53 : ℤ) := by
        rw [abs_div, abs_of_pos hn']
        field_simp

/-- An integer that is divided by a number and multiplied by it again, each result rounded to the
nearest, is the nearest integer of what it becomes. -/
theorem halfAway_of_roundsTo {v : ℤ} {n : ℕ} {q r : ℚ} (hv : v.natAbs < 0x4000000000000)
    (hn : 0 < n) (hq : RoundsTo (v / n) q) (hr : RoundsTo (q * n) r) : halfAway r = v := by
  apply halfAway_eq_of_abs_sub_lt
  have hbound : |(v : ℚ)| < 0x4000000000000 := by exact_mod_cast abs_intCast_lt hv
  have hquot := abs_mul_sub_le hn hq
  have hprod := hr.abs_sub_le
  have hsize : |q * n| ≤ |q * n - v| + |(v : ℚ)| := by
    simpa using abs_add_le (q * n - v) v
  rw [show (2 : ℚ) ^ (-53 : ℤ) = 1 / 0x20000000000000 by norm_num] at hquot hprod
  calc |r - v| ≤ |r - q * n| + |q * n - v| := abs_sub_le r (q * n) v
    _ < 1 / 2 := by
      rw [abs_sub_comm r]
      linarith

/-- The quotient of an integer of 32 bits by a number of 32 bits, and its product with that number,
are rounded to the nearest. -/
theorem exists_roundsTo {v : ℤ} {n : ℕ} (hv : v.natAbs < 0x100000000) (hn : 0 < n)
    (hn' : n < 0x100000000) :
    ∃ q r, ((ofInt v).divNat n).value? = some q ∧ RoundsTo (v / n) q ∧
      (((ofInt v).divNat n).mulNat n).value? = some r ∧ RoundsTo (q * n) r := by
  have hnpos : (1 : ℚ) ≤ n := by exact_mod_cast hn
  have hnbound : (n : ℚ) < 0x100000000 := by exact_mod_cast hn'
  have hzero : v = 0 ∨ 1 ≤ |(v : ℚ)| := by
    by_cases h : v = 0
    · exact Or.inl h
    · exact Or.inr (by exact_mod_cast Int.one_le_abs h)
  have hbound : |(v : ℚ)| < 0x100000000 := by exact_mod_cast abs_intCast_lt hv
  have hquot : InRange ((v : ℚ) / n) := by
    rcases hzero with rfl | hone
    · left
      simp
    · apply inRange_of_bounds
      · rw [abs_div, Nat.abs_cast, le_div_iff₀ (by linarith)]
        linarith
      · rw [abs_div, Nat.abs_cast, div_lt_iff₀ (by linarith)]
        linarith
  obtain ⟨q, hqvalue, hq⟩ := roundsTo_divNat (value?_ofInt (by omega)) hn hquot
  have herror := abs_mul_sub_le hn hq
  have hprod : InRange (q * n) := by
    rcases hzero with rfl | hone
    · left
      rwa [Int.cast_zero, abs_zero, zero_mul, sub_zero, abs_nonpos_iff] at herror
    · rw [show (2 : ℚ) ^ (-53 : ℤ) = 1 / 0x20000000000000 by norm_num] at herror
      have hlo := abs_sub_abs_le_abs_sub (v : ℚ) (q * n)
      have hhi := abs_sub_abs_le_abs_sub (q * n) (v : ℚ)
      rw [abs_sub_comm (v : ℚ)] at hlo
      apply inRange_of_bounds
      · linarith
      · linarith
  obtain ⟨r, hrvalue, hr⟩ := roundsTo_mulNat hqvalue hprod
  exact ⟨q, r, hqvalue, hq, hrvalue, hr⟩

/-- An integer of 32 bits that is scaled down is the nearest integer when it is scaled up again. -/
theorem nearestInt?_mulNat_divNat {v : ℤ} {n : ℕ} (hv : v.natAbs < 0x100000000) (hn : 0 < n)
    (hn' : n < 0x100000000) : (((ofInt v).divNat n).mulNat n).nearestInt? = some v := by
  obtain ⟨q, r, -, hq, hvalue, hr⟩ := exists_roundsTo hv hn hn'
  rw [nearestInt?_eq, hvalue, Option.map_some, halfAway_of_roundsTo (by omega) hn hq hr]

end WireSchema.Binary64
