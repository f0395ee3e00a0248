import Mathlib
import WireSchema.Binary64.Basic

/-!
# Rounding to binary numbers

Rounding a fraction depends on its value alone. `nearest` is the same rounding as a function of that
value: the exponent follows from the logarithm, and the mantissa is the nearest integer to what is
left.

* `ofRatio_eq_nearest` — rounding a fraction is rounding its value;
* `nearest_of_isCanonical` — the value of a finite number is rounded to that number;
* `exists_nearest_eq_halfEven` — what is rounded where the mantissa has its full length.
-/

namespace WireSchema.Binary64

/-! ### Powers of two -/

theorem two_zpow_pos (k : ℤ) : (0 : ℚ) < 2 ^ k :=
  zpow_pos (by norm_num) k

theorem two_zpow_mul {a b c : ℤ} (h : a + b = c) : (2 : ℚ) ^ a * 2 ^ b = 2 ^ c := by
  rw [← zpow_add₀ (by norm_num), h]

/-- Scaling a fraction multiplies its value by a power of two. -/
theorem scaled_ratio (num den : ℕ) (power : ℤ) :
    ((scaled num den power).1 : ℚ) / (scaled num den power).2 = num / den * 2 ^ power := by
  unfold scaled
  by_cases h : 0 ≤ power
  · obtain ⟨k, rfl⟩ := Int.eq_ofNat_of_zero_le h
    rw [if_pos h, Int.toNat_natCast, zpow_natCast, Nat.shiftLeft_eq]
    push_cast
    ring
  · obtain ⟨k, hk⟩ := Int.eq_ofNat_of_zero_le (show 0 ≤ -power by omega)
    rw [if_neg h, hk, Int.toNat_natCast, show power = -(k : ℤ) by omega, zpow_neg, zpow_natCast,
      Nat.shiftLeft_eq]
    push_cast
    rw [div_mul_eq_div_div, div_eq_mul_inv _ ((2 : ℚ) ^ k)]

theorem scaled_den_pos {num den : ℕ} (power : ℤ) (h : 0 < den) : 0 < (scaled num den power).2 := by
  unfold scaled
  split
  · exact h
  · rw [Nat.shiftLeft_eq]
    exact Nat.mul_pos h (Nat.two_pow_pos _)

/-- The logarithm is the exponent of the power of two at or below. -/
theorem log_eq {q : ℚ} {k : ℤ} (hlo : (2 : ℚ) ^ k ≤ q) (hhi : q < 2 ^ (k + 1)) :
    Int.log 2 q = k := by
  have hq : 0 < q := lt_of_lt_of_le (two_zpow_pos k) hlo
  have hle : k ≤ Int.log 2 q := (Int.zpow_le_iff_le_log (by norm_num) hq).mp (by exact_mod_cast hlo)
  have hlt : Int.log 2 q < k + 1 :=
    (Int.lt_zpow_iff_log_lt (by norm_num) hq).mp (by exact_mod_cast hhi)
  omega

/-- The logarithm of a fraction is found from the lengths of its numerator and denominator. -/
theorem ratioLog2_eq {num den : ℕ} (hnum : 0 < num) (hden : 0 < den) :
    ratioLog2 num den = Int.log 2 ((num : ℚ) / den) := by
  have hden' : (0 : ℚ) < den := by exact_mod_cast hden
  have hnumlo : (2 : ℚ) ^ (num.log2 : ℤ) ≤ num := by
    exact_mod_cast Nat.log2_self_le (Nat.pos_iff_ne_zero.mp hnum)
  have hnumhi : (num : ℚ) < 2 ^ ((num.log2 : ℤ) + 1) := by
    exact_mod_cast @Nat.lt_log2_self num
  have hdenlo : (2 : ℚ) ^ (den.log2 : ℤ) ≤ den := by
    exact_mod_cast Nat.log2_self_le (Nat.pos_iff_ne_zero.mp hden)
  have hdenhi : (den : ℚ) < 2 ^ ((den.log2 : ℤ) + 1) := by
    exact_mod_cast @Nat.lt_log2_self den
  generalize hk : (num.log2 : ℤ) - (den.log2 : ℤ) = k
  have hup : (num : ℚ) / den < 2 ^ (k + 1) := by
    rw [div_lt_iff₀ hden']
    calc (num : ℚ) < 2 ^ ((num.log2 : ℤ) + 1) := hnumhi
      _ = 2 ^ (k + 1) * 2 ^ (den.log2 : ℤ) := (two_zpow_mul (by omega)).symm
      _ ≤ 2 ^ (k + 1) * den := by
        exact mul_le_mul_of_nonneg_left hdenlo (le_of_lt (two_zpow_pos _))
  have hlow : (2 : ℚ) ^ (k - 1) ≤ (num : ℚ) / den := by
    rw [le_div_iff₀ hden']
    calc (2 : ℚ) ^ (k - 1) * den ≤ 2 ^ (k - 1) * 2 ^ ((den.log2 : ℤ) + 1) :=
          mul_le_mul_of_nonneg_left (le_of_lt hdenhi) (le_of_lt (two_zpow_pos _))
      _ = 2 ^ (num.log2 : ℤ) := two_zpow_mul (by omega)
      _ ≤ num := hnumlo
  have hscaled := scaled_ratio num den (-k)
  have hscaledpos : (0 : ℚ) < (scaled num den (-k)).2 := by
    exact_mod_cast scaled_den_pos (-k) hden
  have hcompare : (scaled num den (-k)).2 ≤ (scaled num den (-k)).1 ↔
      (2 : ℚ) ^ k ≤ (num : ℚ) / den := by
    rw [← @Nat.cast_le ℚ, ← one_le_div hscaledpos, hscaled, zpow_neg,
      ← div_eq_mul_inv, one_le_div (two_zpow_pos k)]
  unfold ratioLog2
  rw [hk]
  by_cases h : (2 : ℚ) ^ k ≤ (num : ℚ) / den
  · rw [log_eq h hup]
    exact if_pos (hcompare.mpr h)
  · rw [log_eq hlow (by rw [sub_add_cancel]; exact not_le.mp h)]
    exact if_neg (fun hle => h (hcompare.mp hle))

/-! ### The nearest integer -/

/-- The integer nearest to a value that is not negative, a tie to the even one. -/
def halfEven (q : ℚ) : ℕ :=
  if 2 * (q - ⌊q⌋₊) < 1 then ⌊q⌋₊ else if 1 < 2 * (q - ⌊q⌋₊) then ⌊q⌋₊ + 1 else ⌊q⌋₊ + ⌊q⌋₊ % 2

/-- The integer nearest to a fraction is the one nearest to its value. -/
theorem roundHalfEven_eq (num : ℕ) {den : ℕ} (h : 0 < den) :
    roundHalfEven num den = halfEven ((num : ℚ) / den) := by
  have hden : (0 : ℚ) < den := by exact_mod_cast h
  have hfloor : ⌊(num : ℚ) / den⌋₊ = num / den := Nat.floor_div_eq_div num den
  have hrest : 2 * ((num : ℚ) / den - (num / den : ℕ)) = (2 * (num % den) : ℕ) / den := by
    have hdiv : (num : ℚ) = den * (num / den : ℕ) + (num % den : ℕ) := by
      exact_mod_cast (Nat.div_add_mod num den).symm
    field_simp
    push_cast at hdiv ⊢
    linarith
  unfold roundHalfEven halfEven
  simp only [hfloor, hrest, div_lt_one hden, one_lt_div hden, Nat.cast_lt]

theorem floor_le_halfEven (q : ℚ) : ⌊q⌋₊ ≤ halfEven q := by
  unfold halfEven
  split
  · exact Nat.le_refl _
  split
  · exact Nat.le_succ _
  · exact Nat.le_add_right _ _

theorem halfEven_le_floor_add_one (q : ℚ) : halfEven q ≤ ⌊q⌋₊ + 1 := by
  unfold halfEven
  split
  · exact Nat.le_succ _
  split
  · exact Nat.le_refl _
  · omega

/-- The nearest integer is at most a half away. -/
theorem abs_halfEven_sub_le {q : ℚ} (hq : 0 ≤ q) : |(halfEven q : ℚ) - q| ≤ 1 / 2 := by
  have hlo := Nat.floor_le hq
  have hhi := Nat.lt_floor_add_one q
  rw [abs_le]
  unfold halfEven
  split
  · constructor <;> linarith
  split
  · push_cast
    constructor <;> linarith
  · have hmod : (⌊q⌋₊ % 2 : ℕ) = 0 ∨ (⌊q⌋₊ % 2 : ℕ) = 1 := by omega
    rcases hmod with hmod | hmod
    · rw [hmod, Nat.add_zero]
      constructor <;> linarith
    · rw [hmod]
      push_cast
      constructor <;> linarith

theorem halfEven_natCast (n : ℕ) : halfEven (n : ℚ) = n := by
  unfold halfEven
  rw [Nat.floor_natCast, sub_self, mul_zero, if_pos zero_lt_one]

/-! ### Rounding a value -/

/-- The exponent of the number that a positive value rounds to, before a carry. -/
def exponentOf (q : ℚ) : ℤ :=
  max (Int.log 2 q - 52) (-1074)

/-- The number nearest to a value that is not negative, with the given sign. -/
def nearest (negative : Bool) (q : ℚ) : Binary64 :=
  if q = 0 then zero negative
  else ofMantissa negative (halfEven (q * 2 ^ (-exponentOf q))) (exponentOf q)

/-- Rounding a fraction is rounding its value. -/
theorem ofRatio_eq_nearest (negative : Bool) (num : ℕ) {den : ℕ} (h : 0 < den) :
    ofRatio negative num den = nearest negative ((num : ℚ) / den) := by
  have hden : (den : ℚ) ≠ 0 := by
    exact_mod_cast Nat.pos_iff_ne_zero.mp h
  unfold ofRatio nearest
  by_cases hnum : num = 0
  · rw [if_pos hnum, if_pos (by rw [hnum, Nat.cast_zero, zero_div])]
  · have hq : (num : ℚ) / den ≠ 0 := div_ne_zero (by exact_mod_cast hnum) hden
    have hexponent : ratioExponent num den = exponentOf ((num : ℚ) / den) := by
      rw [ratioExponent, exponentOf, ratioLog2_eq (Nat.pos_of_ne_zero hnum) h]
    rw [if_neg hnum, if_neg hq, hexponent]
    show ofMantissa negative (roundHalfEven (scaled num den _).1 (scaled num den _).2) _ = _
    rw [roundHalfEven_eq _ (scaled_den_pos _ h), scaled_ratio]

/-- The value of a finite number is rounded to that number. -/
theorem nearest_of_isCanonical (negative : Bool) {m : ℕ} {e : ℤ} (h : IsCanonical m e) :
    nearest negative (m * 2 ^ e) = .finite negative m e h := by
  by_cases hm : m = 0
  · subst hm
    obtain rfl : e = -1074 := h.2.2.2.resolve_left (by omega)
    rw [nearest, if_pos (by rw [Nat.cast_zero, zero_mul])]
    rfl
  have hpow : (2 : ℚ) ^ e ≠ 0 := ne_of_gt (two_zpow_pos e)
  have hm' : (m : ℚ) ≠ 0 := by exact_mod_cast hm
  have hloglo : (2 : ℚ) ^ (m.log2 : ℤ) ≤ m := by
    exact_mod_cast Nat.log2_self_le hm
  have hloghi : (m : ℚ) < 2 ^ ((m.log2 : ℤ) + 1) := by
    exact_mod_cast @Nat.lt_log2_self m
  have hlog : Int.log 2 ((m : ℚ) * 2 ^ e) = m.log2 + e := by
    refine log_eq ?_ ?_
    · rw [zpow_add₀ (by norm_num)]
      exact mul_le_mul_of_nonneg_right hloglo (le_of_lt (two_zpow_pos e))
    · rw [add_right_comm, zpow_add₀ (by norm_num)]
      exact mul_lt_mul_of_pos_right hloghi (two_zpow_pos e)
  have hlt : m.log2 < 53 := (Nat.log2_lt hm).mpr h.1
  have hexponent : exponentOf ((m : ℚ) * 2 ^ e) = e := by
    rw [exponentOf, hlog]
    rcases h.2.2.2 with hfull | hleast
    · have hge : 52 ≤ m.log2 := (Nat.le_log2 hm).mpr hfull
      have hmin := h.2.1
      omega
    · omega
  rw [nearest, if_neg (mul_ne_zero hm' hpow), hexponent, mul_assoc, ← zpow_add₀ (by norm_num),
    add_neg_cancel, zpow_zero, mul_one, halfEven_natCast, ofMantissa, dif_pos h]

/-- The logarithm leaves a mantissa of full length. -/
theorem mantissa_log_bounds {q : ℚ} (hq : 0 < q) :
    (2 : ℚ) ^ (52 : ℤ) ≤ q * 2 ^ (52 - Int.log 2 q) ∧
      q * 2 ^ (52 - Int.log 2 q) < (2 : ℚ) ^ (53 : ℤ) := by
  have hqlo : (2 : ℚ) ^ Int.log 2 q ≤ q := by
    exact_mod_cast Int.zpow_log_le_self (by norm_num) hq
  have hqhi : q < 2 ^ (Int.log 2 q + 1) := by
    exact_mod_cast Int.lt_zpow_succ_log_self (by norm_num) q
  constructor
  · calc (2 : ℚ) ^ (52 : ℤ) = 2 ^ Int.log 2 q * 2 ^ (52 - Int.log 2 q) :=
          (two_zpow_mul (by omega)).symm
      _ ≤ q * 2 ^ (52 - Int.log 2 q) := mul_le_mul_of_nonneg_right hqlo (le_of_lt (two_zpow_pos _))
  · calc q * 2 ^ (52 - Int.log 2 q) < 2 ^ (Int.log 2 q + 1) * 2 ^ (52 - Int.log 2 q) :=
          mul_lt_mul_of_pos_right hqhi (two_zpow_pos _)
      _ = 2 ^ (53 : ℤ) := two_zpow_mul (by omega)

/-- A positive value is a mantissa of full length and a power of two. -/
theorem exists_mantissa {q : ℚ} (hq : 0 < q) :
    ∃ (x : ℚ) (k : ℤ), q = x * 2 ^ k ∧ (2 : ℚ) ^ (52 : ℤ) ≤ x ∧ x < (2 : ℚ) ^ (53 : ℤ) := by
  refine ⟨q * 2 ^ (52 - Int.log 2 q), Int.log 2 q - 52, ?_, mantissa_log_bounds hq⟩
  rw [mul_assoc, two_zpow_mul (show 52 - Int.log 2 q + (Int.log 2 q - 52) = 0 by ring), zpow_zero,
    mul_one]

/-- The mantissa of a value that is neither very small nor very large has its full length before it
is rounded. -/
theorem mantissa_bounds {q : ℚ} (hlo : 2 ^ (-1022 : ℤ) ≤ q) (hhi : q < 2 ^ (1000 : ℤ)) :
    -1074 ≤ exponentOf q ∧ exponentOf q < 948 ∧ (2 : ℚ) ^ (52 : ℤ) ≤ q * 2 ^ (-exponentOf q) ∧
      q * 2 ^ (-exponentOf q) < (2 : ℚ) ^ (53 : ℤ) := by
  have hq : 0 < q := lt_of_lt_of_le (two_zpow_pos _) hlo
  have hlogmin : -1022 ≤ Int.log 2 q :=
    (Int.zpow_le_iff_le_log (by norm_num) hq).mp (by exact_mod_cast hlo)
  have hlogmax : Int.log 2 q < 1000 :=
    (Int.lt_zpow_iff_log_lt (by norm_num) hq).mp (by exact_mod_cast hhi)
  have hexponent : exponentOf q = Int.log 2 q - 52 := by
    rw [exponentOf]
    omega
  refine ⟨by omega, by omega, ?_⟩
  rw [hexponent, neg_sub]
  exact mantissa_log_bounds hq

/-- Rounding a mantissa of full length moves it by at most one part in `2 ^ 53`. -/
theorem abs_halfEven_mul_sub_le {x : ℚ} (hx : (2 : ℚ) ^ (52 : ℤ) ≤ x) (k : ℤ) :
    |(halfEven x : ℚ) * 2 ^ k - x * 2 ^ k| ≤ x * 2 ^ k * 2 ^ (-53 : ℤ) := by
  have hxpos : 0 ≤ x := le_trans (le_of_lt (two_zpow_pos _)) hx
  have hhalf := abs_halfEven_sub_le hxpos
  have hsmall : (1 : ℚ) / 2 ≤ x * 2 ^ (-53 : ℤ) := by
    calc (1 : ℚ) / 2 = 2 ^ (52 : ℤ) * 2 ^ (-53 : ℤ) := by
          rw [← zpow_add₀ (by norm_num)]
          norm_num
      _ ≤ x * 2 ^ (-53 : ℤ) := mul_le_mul_of_nonneg_right hx (le_of_lt (two_zpow_pos _))
  rw [← sub_mul, abs_mul, abs_of_pos (two_zpow_pos k), mul_right_comm]
  exact mul_le_mul_of_nonneg_right (le_trans hhalf hsmall) (le_of_lt (two_zpow_pos _))

/-- A mantissa of full length gives a finite number of its value, also where rounding has carried it
to one bit more. -/
theorem ofMantissa_of_full (negative : Bool) {m : ℕ} {k : ℤ} (hmin : -1074 ≤ k) (hmax : k < 948)
    (hlo : 0x10000000000000 ≤ m) (hhi : m ≤ 0x20000000000000) :
    ∃ m' e h, ofMantissa negative m k = .finite negative m' e h ∧
      (m' : ℚ) * 2 ^ e = m * 2 ^ k := by
  by_cases hcarry : m < 0x20000000000000
  · have hc : IsCanonical m k := ⟨hcarry, by omega, by omega, Or.inl hlo⟩
    exact ⟨m, k, hc, by rw [ofMantissa, dif_pos hc], rfl⟩
  · have hfull : m = 0x20000000000000 := by omega
    have hc : IsCanonical (m / 2) (k + 1) := by
      rw [hfull]
      exact ⟨by norm_num, by omega, by omega, Or.inl (by norm_num)⟩
    have hnot : ¬IsCanonical m k := fun h => hcarry h.1
    refine ⟨m / 2, k + 1, hc, by rw [ofMantissa, dif_neg hnot, dif_pos hc], ?_⟩
    rw [hfull, zpow_add₀ (by norm_num), zpow_one]
    norm_num
    ring

/-- The integer nearest to a mantissa of full length has its full length, or one bit more. -/
theorem halfEven_bounds {x : ℚ} (hlo : (2 : ℚ) ^ (52 : ℤ) ≤ x) (hhi : x < (2 : ℚ) ^ (53 : ℤ)) :
    0x10000000000000 ≤ halfEven x ∧ halfEven x ≤ 0x20000000000000 := by
  have hx : 0 ≤ x := le_trans (le_of_lt (two_zpow_pos _)) hlo
  constructor
  · exact le_trans (Nat.le_floor (by norm_num at hlo ⊢; exact hlo)) (floor_le_halfEven x)
  · exact le_trans (halfEven_le_floor_add_one x)
      (Nat.succ_le_of_lt ((Nat.floor_lt hx).mpr (by norm_num at hhi ⊢; exact hhi)))

/-- A value that is neither very small nor very large is a mantissa of full length and a power of
two, and its mantissa is rounded. -/
theorem exists_nearest_eq_halfEven (negative : Bool) {q : ℚ} (hlo : 2 ^ (-1022 : ℤ) ≤ q)
    (hhi : q < 2 ^ (1000 : ℤ)) :
    ∃ (x : ℚ) (k : ℤ), q = x * 2 ^ k ∧ (2 : ℚ) ^ (52 : ℤ) ≤ x ∧ x < (2 : ℚ) ^ (53 : ℤ) ∧
      ∃ m e h, nearest negative q = .finite negative m e h ∧
        (m : ℚ) * 2 ^ e = halfEven x * 2 ^ k := by
  have hq : 0 < q := lt_of_lt_of_le (two_zpow_pos _) hlo
  obtain ⟨hmin, hmax, hxlo, hxhi⟩ := mantissa_bounds hlo hhi
  rw [nearest, if_neg (ne_of_gt hq)]
  generalize exponentOf q = k at *
  generalize hx : q * 2 ^ (-k) = x at *
  have hqx : q = x * 2 ^ k := by
    rw [← hx, mul_assoc, ← zpow_add₀ (by norm_num), neg_add_cancel, zpow_zero, mul_one]
  obtain ⟨hmlo, hmhi⟩ := halfEven_bounds hxlo hxhi
  exact ⟨x, k, hqx, hxlo, hxhi, ofMantissa_of_full negative hmin hmax hmlo hmhi⟩

end WireSchema.Binary64
