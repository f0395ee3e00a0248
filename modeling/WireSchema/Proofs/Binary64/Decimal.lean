import Mathlib
import WireSchema.Binary64.Decimal
import WireSchema.Proofs.Binary64.Rounding

/-!
# Decimal fractions and binary numbers

The binary number of a decimal fraction depends on its value alone, also where powers of ten are not
computed, and the decimal fraction of fewest digits has the binary number that it was found for.

* `Decimal.value` — the value of a decimal fraction;
* `ofDecimal_eq_nearest` — the binary number is the one nearest to that value;
* `nearest_shortest` — the shortest decimal fraction of a finite number is rounded to that number.
-/

namespace WireSchema

/-! ### Values -/

/-- The value of a decimal fraction. -/
def Decimal.value (d : Decimal) : ℚ :=
  d.coefficient * 10 ^ d.exponent

namespace Decimal

theorem ten_zpow_pos (k : ℤ) : (0 : ℚ) < 10 ^ k :=
  zpow_pos (by norm_num) k

theorem ratio_den_pos (d : Decimal) : 0 < d.ratio.2 := by
  unfold ratio
  split
  · exact Nat.one_pos
  · exact Nat.pow_pos (by decide)

theorem ratio_value (d : Decimal) : (d.ratio.1 : ℚ) / d.ratio.2 = d.value := by
  unfold ratio value
  by_cases h : 0 ≤ d.exponent
  · obtain ⟨k, hk⟩ := Int.eq_ofNat_of_zero_le h
    rw [if_pos h, hk, Int.toNat_natCast, zpow_natCast, Nat.pow_eq]
    push_cast
    rw [div_one]
  · obtain ⟨k, hk⟩ := Int.eq_ofNat_of_zero_le (show 0 ≤ -d.exponent by omega)
    rw [if_neg h, hk, Int.toNat_natCast, show d.exponent = -(k : ℤ) by omega, zpow_neg,
      zpow_natCast, Nat.pow_eq]
    push_cast
    rw [div_eq_mul_inv]

theorem stripZeros_value (fuel c : ℕ) (x : ℤ) : (stripZeros fuel c x).value = c * 10 ^ x := by
  induction fuel generalizing c x with
  | zero => rfl
  | succ fuel ih =>
    rw [stripZeros]
    split
    · rename_i h
      have hc : (c : ℚ) = (c / 10 : ℕ) * 10 := by
        exact_mod_cast (Nat.div_mul_cancel (Nat.dvd_of_mod_eq_zero h.2)).symm
      rw [ih, zpow_add₀ (by norm_num), zpow_one, hc]
      ring
    · rfl

/-- Dropping zeros does not change the value. -/
theorem normalize_value (d : Decimal) : d.normalize.value = d.value :=
  stripZeros_value _ _ _

end Decimal

namespace Binary64

/-! ### From decimal to binary -/

/-- A value beyond the greatest number is rounded to infinity. -/
theorem nearest_of_large (negative : Bool) {q : ℚ} (h : 2 ^ (1024 : ℤ) ≤ q) :
    nearest negative q = .infinity negative := by
  have hq : 0 < q := lt_of_lt_of_le (two_zpow_pos _) h
  have hlog : 1024 ≤ Int.log 2 q :=
    (Int.zpow_le_iff_le_log (by norm_num) hq).mp (by exact_mod_cast h)
  have hexponent : 971 < exponentOf q := by
    rw [exponentOf]
    omega
  have hfirst : ¬IsCanonical (halfEven (q * 2 ^ (-exponentOf q))) (exponentOf q) :=
    fun hc => by have := hc.2.2.1; omega
  have hsecond : ¬IsCanonical (halfEven (q * 2 ^ (-exponentOf q)) / 2) (exponentOf q + 1) :=
    fun hc => by have := hc.2.2.1; omega
  rw [nearest, if_neg (ne_of_gt hq), ofMantissa, dif_neg hfirst, dif_neg hsecond]

/-- A value below half of the least number is rounded to zero. -/
theorem nearest_of_small (negative : Bool) {q : ℚ} (hq : 0 < q) (h : q < 2 ^ (-1076 : ℤ)) :
    nearest negative q = zero negative := by
  have hlog : Int.log 2 q < -1076 :=
    (Int.lt_zpow_iff_log_lt (by norm_num) hq).mp (by exact_mod_cast h)
  have hexponent : exponentOf q = -1074 := by
    rw [exponentOf]
    omega
  have hsmall : q * 2 ^ (1074 : ℤ) < 1 / 2 := by
    calc q * 2 ^ (1074 : ℤ) < 2 ^ (-1076 : ℤ) * 2 ^ (1074 : ℤ) :=
          mul_lt_mul_of_pos_right h (two_zpow_pos _)
      _ < 1 / 2 := by
          rw [← zpow_add₀ (by norm_num)]
          norm_num
  have hfloor : ⌊q * 2 ^ (1074 : ℤ)⌋₊ = 0 :=
    Nat.floor_eq_zero.mpr (lt_trans hsmall (by norm_num))
  have hmantissa : halfEven (q * 2 ^ (1074 : ℤ)) = 0 := by
    rw [halfEven, hfloor, Nat.cast_zero, sub_zero, if_pos (by linarith)]
  have hcanonical : IsCanonical 0 (-1074) := by decide
  rw [nearest, if_neg (ne_of_gt hq), hexponent, neg_neg, hmantissa, ofMantissa, dif_pos hcanonical]
  rfl

/-- Ten is between the third and the fourth power of two. -/
theorem ten_zpow_le {x : ℤ} (hx : x ≤ 0) : (10 : ℚ) ^ x ≤ 2 ^ (3 * x) := by
  obtain ⟨k, hk⟩ := Int.eq_ofNat_of_zero_le (show 0 ≤ -x by omega)
  obtain rfl : x = -(k : ℤ) := by omega
  rw [zpow_mul, zpow_neg, zpow_neg, zpow_natCast, zpow_natCast]
  exact inv_anti₀ (by positivity) (pow_le_pow_left₀ (by norm_num) (by norm_num) k)

theorem two_zpow_1024_le : (2 : ℚ) ^ (1024 : ℤ) ≤ 10 ^ (311 : ℤ) := by
  have hblock : (2 : ℚ) ^ (93 : ℤ) ≤ 10 ^ (28 : ℤ) := by norm_num
  calc (2 : ℚ) ^ (1024 : ℤ) = (2 ^ (93 : ℤ)) ^ (11 : ℤ) * 2 := by
        rw [← zpow_mul, ← zpow_add_one₀ (by norm_num)]
        rfl
    _ ≤ (10 ^ (28 : ℤ)) ^ (11 : ℤ) * 10 := by
        refine mul_le_mul (zpow_le_zpow_left₀ (by norm_num) (le_of_lt (two_zpow_pos _)) hblock)
          (by norm_num) (by norm_num) (by positivity)
    _ = 10 ^ (309 : ℤ) := by
        rw [← zpow_mul, ← zpow_add_one₀ (by norm_num)]
        rfl
    _ ≤ 10 ^ (311 : ℤ) := zpow_le_zpow_right₀ (by norm_num) (by norm_num)

/-- The binary number of a decimal fraction is the one nearest to its value. -/
theorem ofDecimal_eq_nearest (negative : Bool) (d : Decimal) :
    ofDecimal negative d = nearest negative d.value := by
  unfold ofDecimal
  by_cases hc : d.coefficient = 0
  · rw [if_pos hc, nearest, if_pos (by rw [Decimal.value, hc, Nat.cast_zero, zero_mul])]
  have hc' : (1 : ℚ) ≤ d.coefficient := by
    exact_mod_cast Nat.one_le_iff_ne_zero.mpr hc
  have hpos : 0 < d.value := mul_pos (lt_of_lt_of_le one_pos hc') (Decimal.ten_zpow_pos _)
  rw [if_neg hc]
  by_cases hlarge : 310 < d.exponent
  · rw [if_pos hlarge, nearest_of_large]
    calc (2 : ℚ) ^ (1024 : ℤ) ≤ 10 ^ (311 : ℤ) := two_zpow_1024_le
      _ ≤ 10 ^ d.exponent := zpow_le_zpow_right₀ (by norm_num) (by omega)
      _ ≤ d.coefficient * 10 ^ d.exponent :=
          le_mul_of_one_le_left (le_of_lt (Decimal.ten_zpow_pos _)) hc'
  rw [if_neg hlarge]
  by_cases hsmall : (d.coefficient.log2 : ℤ) + 1081 < -3 * d.exponent
  · rw [if_pos hsmall, nearest_of_small negative hpos]
    have hlog : (d.coefficient : ℚ) < 2 ^ ((d.coefficient.log2 : ℤ) + 1) := by
      exact_mod_cast @Nat.lt_log2_self d.coefficient
    calc (d.coefficient : ℚ) * 10 ^ d.exponent
        < 2 ^ ((d.coefficient.log2 : ℤ) + 1) * 10 ^ d.exponent :=
          mul_lt_mul_of_pos_right hlog (Decimal.ten_zpow_pos _)
      _ ≤ 2 ^ ((d.coefficient.log2 : ℤ) + 1) * 2 ^ (3 * d.exponent) :=
          mul_le_mul_of_nonneg_left (ten_zpow_le (by omega)) (le_of_lt (two_zpow_pos _))
      _ = 2 ^ ((d.coefficient.log2 : ℤ) + 1 + 3 * d.exponent) := by
          rw [← zpow_add₀ (by norm_num)]
      _ ≤ 2 ^ (-1076 : ℤ) := zpow_le_zpow_right₀ (by norm_num) (by omega)
  · rw [if_neg hsmall, ofRatio_eq_nearest negative _ d.ratio_den_pos, d.ratio_value]

/-! ### From binary to decimal -/

theorem ofDecimal_of_neighbour? {tie : DecimalTie} {target : Binary64} {num den : ℕ} {exponent : ℤ}
    {d : Decimal} (h : neighbour? tie target num den exponent = some d) :
    ofDecimal false d = target := by
  unfold neighbour? at h
  generalize (if 0 ≤ exponent then (num, den * Nat.pow 10 exponent.toNat)
    else (num * Nat.pow 10 (-exponent).toNat, den)) = ratio at h
  simp only at h
  split at h
  · rename_i hbelow
    split at h
    · rename_i habove
      cases h
      exact habove.1
    · cases h
      exact hbelow
  split at h
  · rename_i habove
    cases h
    exact habove
  · cases h

/-- The decimal expansion of a finite number has its value. -/
theorem expansion_value (m : ℕ) (e : ℤ) : (expansion m e).value = m * 2 ^ e := by
  unfold expansion Decimal.value
  by_cases h : 0 ≤ e
  · obtain ⟨k, rfl⟩ := Int.eq_ofNat_of_zero_le h
    rw [if_pos h, Int.toNat_natCast, zpow_natCast, Nat.shiftLeft_eq]
    push_cast
    rw [mul_one]
  · obtain ⟨k, hk⟩ := Int.eq_ofNat_of_zero_le (show 0 ≤ -e by omega)
    obtain rfl : e = -(k : ℤ) := by omega
    rw [if_neg h, neg_neg, Int.toNat_natCast, zpow_neg, zpow_neg, zpow_natCast, zpow_natCast,
      Nat.pow_eq]
    push_cast
    rw [show (10 : ℚ) ^ k = 5 ^ k * 2 ^ k by rw [← mul_pow]; norm_num]
    field_simp

/-- The shortest decimal fraction of a finite number is rounded to that number. -/
theorem nearest_shortest (tie : DecimalTie) {m : ℕ} {e : ℤ} (h : IsCanonical m e) :
    nearest false (shortest tie m e).value = .finite false m e h := by
  unfold shortest
  by_cases hm : m = 0
  · subst hm
    have hzero := nearest_of_isCanonical false h
    rw [Nat.cast_zero, zero_mul] at hzero
    rw [if_pos rfl, Decimal.value, Nat.cast_zero, zero_mul, hzero]
  have htarget : ofMantissa false m e = .finite false m e h := by
    rw [ofMantissa, dif_pos h]
  rw [if_neg hm, htarget]
  simp only [Decimal.normalize_value]
  cases hfound : (List.range 17).findSome? fun n =>
      neighbour? tie (.finite false m e h) (scaled m 1 e).1 (scaled m 1 e).2
        (decimalMagnitude (scaled m 1 e).1 (scaled m 1 e).2 - (n + 1 : ℕ)) with
  | none => rw [Option.getD_none, expansion_value, nearest_of_isCanonical]
  | some d =>
    obtain ⟨n, -, hn⟩ := List.exists_of_findSome?_eq_some hfound
    rw [Option.getD_some, ← ofDecimal_eq_nearest, ofDecimal_of_neighbour? hn]

/-- The sign does not matter for rounding. -/
theorem nearest_of_nearest_false {q : ℚ} {m : ℕ} {e : ℤ} {h : IsCanonical m e}
    (hq : nearest false q = .finite false m e h) (negative : Bool) :
    nearest negative q = .finite negative m e h := by
  unfold nearest at hq ⊢
  split at hq
  · rename_i hzero
    rw [if_pos hzero]
    cases hq
    rfl
  · rename_i hne
    rw [if_neg hne]
    unfold ofMantissa at hq ⊢
    split at hq
    · rename_i hc
      rw [dif_pos hc]
      cases hq
      rfl
    split at hq
    · rename_i hnot hc
      rw [dif_neg hnot, dif_pos hc]
      cases hq
      rfl
    · cases hq

end Binary64

end WireSchema
