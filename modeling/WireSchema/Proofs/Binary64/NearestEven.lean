import Mathlib
import WireSchema.Proofs.Binary64.Rounding

/-!
# Rounding to the nearest, ties to even

What it means for a rational number to be rounded to 53 significant bits, said without the way in
which it is computed: no number of so many bits is nearer, and of two that are as near the result is
the one that ends in a zero bit. The exponent has no bounds here, so that there is neither underflow
nor overflow; the numbers of the format agree with this between `2 ^ (-1022)` and `2 ^ 1000`.
Nothing is claimed about the results outside of that range, zero apart.

* `RoundsTo` — rounding, as a relation;
* `RoundsTo.abs_sub_le` — the result is off by at most one part in `2 ^ 53`;
* `value?` — the rational number that a finite number of the format is;
* `roundsTo_nearest` — the numbers of the format are rounded in this way;
* `halfAway`, `nearestInt?_eq` — rounding to an integer.
-/

namespace WireSchema.Binary64

/-! ### Significant bits -/

/-- A number of at most 53 significant bits. -/
def HasBits (x : ℚ) : Prop :=
  ∃ m e : ℤ, |m| < 2 ^ 53 ∧ x = m * 2 ^ e

/-- A number of which the last of 53 significant bits is zero. -/
def EndsEven (x : ℚ) : Prop :=
  ∃ m e : ℤ, 2 ^ 52 ≤ |m| ∧ |m| < 2 ^ 53 ∧ Even m ∧ x = m * 2 ^ e

/-- A number is rounded to 53 significant bits: to the nearest, a tie to the one that ends even. -/
structure RoundsTo (q r : ℚ) : Prop where
  hasBits : HasBits r
  nearest : ∀ x, HasBits x → |q - r| ≤ |q - x|
  even : ∀ x, HasBits x → x ≠ r → |q - x| = |q - r| → EndsEven r

theorem HasBits.zero : HasBits 0 :=
  ⟨0, 0, by norm_num, by norm_num⟩

theorem HasBits.neg {x : ℚ} (h : HasBits x) : HasBits (-x) := by
  obtain ⟨m, e, hm, rfl⟩ := h
  refine ⟨-m, e, by rwa [abs_neg], ?_⟩
  push_cast
  ring

theorem EndsEven.neg {x : ℚ} (h : EndsEven x) : EndsEven (-x) := by
  obtain ⟨m, e, hlo, hhi, heven, rfl⟩ := h
  refine ⟨-m, e, by rwa [abs_neg], by rwa [abs_neg], heven.neg, ?_⟩
  push_cast
  ring

/-- Numbers that are a multiple of a power of two, or below those with all 53 bits there. -/
theorem HasBits.eq_mul_or_lt {x : ℚ} (h : HasBits x) (k : ℤ) :
    (∃ j : ℤ, x = j * 2 ^ k) ∨ |x| < 2 ^ 52 * 2 ^ k := by
  obtain ⟨m, e, hm, rfl⟩ := h
  by_cases hke : k ≤ e
  · obtain ⟨i, hi⟩ := Int.eq_ofNat_of_zero_le (show 0 ≤ e - k by omega)
    left
    refine ⟨m * 2 ^ i, ?_⟩
    push_cast
    rw [mul_assoc, ← zpow_natCast, two_zpow_mul (show (i : ℤ) + k = e by omega)]
  · right
    have hm' : |(m : ℚ)| < 2 ^ (53 : ℤ) := by
      exact_mod_cast hm
    have hpow : (2 : ℚ) ^ (e + 1) ≤ 2 ^ k := zpow_le_zpow_right₀ (by norm_num) (by omega)
    rw [abs_mul, abs_of_pos (two_zpow_pos e)]
    calc |(m : ℚ)| * 2 ^ e < 2 ^ (53 : ℤ) * 2 ^ e := mul_lt_mul_of_pos_right hm' (two_zpow_pos e)
      _ = 2 ^ (52 : ℤ) * 2 ^ (e + 1) := by
        rw [two_zpow_mul (show (53 : ℤ) + e = 53 + e from rfl),
          two_zpow_mul (show (52 : ℤ) + (e + 1) = 53 + e by ring)]
      _ ≤ 2 ^ 52 * 2 ^ k := mul_le_mul_of_nonneg_left hpow (by norm_num)

/-- A carry to one bit more leaves 53 bits, the last of which is zero. -/
theorem exists_full {m : ℕ} (hlo : 0x10000000000000 ≤ m) (hhi : m ≤ 0x20000000000000) (k : ℤ) :
    ∃ m' e : ℤ, 2 ^ 52 ≤ |m'| ∧ |m'| < 2 ^ 53 ∧ (Even m → Even m') ∧
      (m : ℚ) * 2 ^ k = m' * 2 ^ e := by
  by_cases hcarry : m < 0x20000000000000
  · refine ⟨m, k, ?_, ?_, ?_, by rw [Int.cast_natCast]⟩
    · rw [Nat.abs_cast]
      omega
    · rw [Nat.abs_cast]
      omega
    · exact (Int.even_coe_nat m).mpr
  · have hfull : m = 0x20000000000000 := by omega
    refine ⟨2 ^ 52, k + 1, by norm_num, by norm_num, fun _ => by decide, ?_⟩
    rw [hfull, zpow_add₀ (by norm_num), zpow_one]
    norm_num
    ring

/-! ### The nearest integer -/

/-- Another integer than the nearest one is at least a half away. -/
theorem half_le_abs_sub {x : ℚ} (hx : 0 ≤ x) {j : ℤ} (hj : j ≠ halfEven x) :
    1 / 2 ≤ |x - j| := by
  have hone : (1 : ℚ) ≤ |(halfEven x : ℚ) - j| := by
    exact_mod_cast Int.one_le_abs (sub_ne_zero.mpr hj.symm)
  have hsplit := abs_sub_le (halfEven x : ℚ) x j
  have hhalf := abs_halfEven_sub_le hx
  linarith

theorem abs_sub_halfEven_le {x : ℚ} (hx : 0 ≤ x) (j : ℤ) : |x - halfEven x| ≤ |x - j| := by
  by_cases hj : j = halfEven x
  · rw [hj, Int.cast_natCast]
  · rw [abs_sub_comm]
    exact le_trans (abs_halfEven_sub_le hx) (half_le_abs_sub hx hj)

/-- An integer that another one is as near as is even. -/
theorem even_halfEven {x : ℚ} (hx : 0 ≤ x) {j : ℤ} (hj : j ≠ halfEven x)
    (htie : |x - j| = |x - halfEven x|) : Even (halfEven x) := by
  have hhalf : 1 / 2 ≤ |x - halfEven x| := htie ▸ half_le_abs_sub hx hj
  have hlo := Nat.floor_le hx
  have hhi := Nat.lt_floor_add_one x
  unfold halfEven at hhalf ⊢
  split_ifs at hhalf ⊢ with hbelow habove
  · rw [abs_of_nonneg (by linarith)] at hhalf
    linarith
  · push_cast at hhalf
    rw [abs_of_nonpos (by linarith)] at hhalf
    linarith
  · rw [Nat.even_iff]
    omega

/-! ### Rounding as a relation -/

theorem RoundsTo.zero : RoundsTo 0 0 := by
  refine ⟨HasBits.zero, ?_, ?_⟩
  · intro x _
    simp
  · intro x _ hne htie
    exact absurd (by simpa using htie) hne

/-- The opposite number is rounded to the opposite. -/
theorem RoundsTo.neg {q r : ℚ} (h : RoundsTo q r) : RoundsTo (-q) (-r) := by
  have hflip : ∀ x, |-q - x| = |q - -x| := by
    intro x
    rw [← abs_neg]
    congr 1
    ring
  refine ⟨h.hasBits.neg, ?_, ?_⟩
  · intro x hx
    rw [hflip, hflip, neg_neg]
    exact h.nearest (-x) hx.neg
  · intro x hx hne htie
    rw [hflip, hflip, neg_neg] at htie
    apply EndsEven.neg
    exact h.even (-x) hx.neg (fun heq => hne (by rw [← heq, neg_neg])) htie

/-- Distances between multiples of a power of two are multiples of it. -/
theorem abs_mul_zpow_sub (x y : ℚ) (k : ℤ) : |x * 2 ^ k - y * 2 ^ k| = |x - y| * 2 ^ k := by
  rw [← sub_mul, abs_mul, abs_of_pos (two_zpow_pos k)]

/-- A number below the least mantissa of full length is farther away than the nearest integer, since
that least mantissa is between them. -/
theorem abs_sub_halfEven_lt_of_below {x y : ℚ} (hlo : (2 : ℚ) ^ (52 : ℤ) ≤ x) {k : ℤ}
    (hy : |y| < 2 ^ 52 * 2 ^ k) : |x * 2 ^ k - halfEven x * 2 ^ k| < |x * 2 ^ k - y| := by
  have hleast := abs_sub_halfEven_le (le_trans (le_of_lt (two_zpow_pos _)) hlo) (2 ^ 52)
  have hfull : |x - ((2 ^ 52 : ℤ) : ℚ)| = x - 2 ^ 52 := by
    push_cast
    exact abs_of_nonneg (by norm_num at hlo ⊢; exact hlo)
  rw [abs_mul_zpow_sub]
  calc |x - halfEven x| * 2 ^ k ≤ (x - 2 ^ 52) * 2 ^ k :=
        mul_le_mul_of_nonneg_right (hfull ▸ hleast) (le_of_lt (two_zpow_pos k))
    _ = x * 2 ^ k - 2 ^ 52 * 2 ^ k := by ring
    _ < x * 2 ^ k - y := by linarith [le_abs_self y]
    _ ≤ |x * 2 ^ k - y| := le_abs_self _

/-- A mantissa of full length is rounded by rounding it to an integer. -/
theorem roundsTo_halfEven {x : ℚ} (hlo : (2 : ℚ) ^ (52 : ℤ) ≤ x) (hhi : x < (2 : ℚ) ^ (53 : ℤ))
    (k : ℤ) : RoundsTo (x * 2 ^ k) (halfEven x * 2 ^ k) := by
  have hx : 0 ≤ x := le_trans (le_of_lt (two_zpow_pos _)) hlo
  obtain ⟨hmlo, hmhi⟩ := halfEven_bounds hlo hhi
  obtain ⟨m, e, hfull, hbits, heven, hvalue⟩ := exists_full hmlo hmhi k
  refine ⟨⟨m, e, hbits, hvalue⟩, ?_, ?_⟩
  · intro y hy
    rcases hy.eq_mul_or_lt k with ⟨j, rfl⟩ | hbelow
    · rw [abs_mul_zpow_sub, abs_mul_zpow_sub]
      exact mul_le_mul_of_nonneg_right (abs_sub_halfEven_le hx j) (le_of_lt (two_zpow_pos k))
    · exact le_of_lt (abs_sub_halfEven_lt_of_below hlo hbelow)
  · intro y hy hne htie
    rcases hy.eq_mul_or_lt k with ⟨j, rfl⟩ | hbelow
    · rw [abs_mul_zpow_sub, abs_mul_zpow_sub] at htie
      have hj : j ≠ halfEven x := fun heq => hne (by rw [heq, Int.cast_natCast])
      have htie' := mul_right_cancel₀ (ne_of_gt (two_zpow_pos k)) htie
      exact ⟨m, e, hfull, hbits, heven (even_halfEven hx hj htie'), hvalue⟩
    · exact absurd htie (ne_of_gt (abs_sub_halfEven_lt_of_below hlo hbelow))

/-- The result is off by at most one part in `2 ^ 53`. -/
theorem RoundsTo.abs_sub_le {q r : ℚ} (h : RoundsTo q r) : |q - r| ≤ |q| * 2 ^ (-53 : ℤ) := by
  -- It is enough to name one number of 53 bits that is as near as this.
  have hpositive : ∀ q : ℚ, 0 < q → ∃ y, HasBits y ∧ |q - y| ≤ q * 2 ^ (-53 : ℤ) := by
    intro q hq
    obtain ⟨x, k, rfl, hlo, hhi⟩ := exists_mantissa hq
    refine ⟨halfEven x * 2 ^ k, (roundsTo_halfEven hlo hhi k).hasBits, ?_⟩
    rw [abs_sub_comm]
    exact abs_halfEven_mul_sub_le hlo k
  rcases lt_trichotomy q 0 with hneg | rfl | hpos
  · obtain ⟨y, hy, hclose⟩ := hpositive (-q) (by linarith)
    rw [abs_of_neg hneg]
    calc |q - r| ≤ |q - -y| := h.nearest (-y) hy.neg
      _ = |-q - y| := by rw [← abs_neg]; congr 1; ring
      _ ≤ -q * 2 ^ (-53 : ℤ) := hclose
  · simpa using h.nearest 0 HasBits.zero
  · obtain ⟨y, hy, hclose⟩ := hpositive q hpos
    rw [abs_of_pos hpos]
    exact le_trans (h.nearest y hy) hclose

/-! ### Numbers of the format -/

/-- A magnitude with a sign. -/
def withSign (negative : Bool) (x : ℚ) : ℚ :=
  if negative then -x else x

@[simp] theorem withSign_false (x : ℚ) : withSign false x = x :=
  rfl

@[simp] theorem withSign_true (x : ℚ) : withSign true x = -x :=
  rfl

/-- The rational number that a finite number is. -/
def value? : Binary64 → Option ℚ
  | .finite negative m e _ => some (withSign negative (m * 2 ^ e))
  | _ => none

theorem RoundsTo.withSign {q r : ℚ} (h : RoundsTo q r) (negative : Bool) :
    RoundsTo (withSign negative q) (withSign negative r) := by
  cases negative with
  | false => exact h
  | true => exact h.neg

/-- The numbers of the format are rounded to the nearest, ties to even. -/
theorem roundsTo_nearest (negative : Bool) {q : ℚ}
    (hq : q = 0 ∨ 2 ^ (-1022 : ℤ) ≤ q ∧ q < 2 ^ (1000 : ℤ)) :
    ∃ r, (nearest negative q).value? = some (withSign negative r) ∧ RoundsTo q r := by
  rcases hq with rfl | ⟨hlo, hhi⟩
  · refine ⟨0, ?_, RoundsTo.zero⟩
    rw [nearest, if_pos rfl]
    simp [zero, value?]
  · obtain ⟨x, k, rfl, hxlo, hxhi, m, e, hc, hfinite, hvalue⟩ :=
      exists_nearest_eq_halfEven negative hlo hhi
    refine ⟨halfEven x * 2 ^ k, ?_, roundsTo_halfEven hxlo hxhi k⟩
    rw [hfinite, value?, hvalue]

/-! ### Rounding to an integer -/

/-- The nearest integer, a half away from zero. -/
def halfAway (x : ℚ) : ℤ :=
  if x < 0 then -round (-x) else round x

theorem halfAway_neg (x : ℚ) : halfAway (-x) = -halfAway x := by
  simp only [halfAway]
  rcases lt_trichotomy x 0 with hneg | rfl | hpos
  · rw [if_neg (by linarith), if_pos hneg, neg_neg]
  · simp
  · rw [if_pos (by linarith), if_neg (by linarith), neg_neg]

theorem halfAway_withSign (negative : Bool) (x : ℚ) :
    halfAway (withSign negative x) = if negative then -halfAway x else halfAway x := by
  cases negative with
  | false => rfl
  | true => exact halfAway_neg x

/-- An integer that is less than a half away is the nearest. -/
theorem halfAway_eq_of_abs_sub_lt {x : ℚ} {k : ℤ} (h : |x - k| < 1 / 2) : halfAway x = k := by
  rw [abs_lt] at h
  simp only [halfAway]
  split_ifs
  · rw [round_eq, neg_eq_iff_eq_neg, Int.floor_eq_iff]
    push_cast
    constructor <;> linarith
  · rw [round_eq, Int.floor_eq_iff]
    constructor <;> linarith

/-- The nearest integer of a finite number is that of its value. -/
theorem nearestInt?_eq (x : Binary64) : x.nearestInt? = x.value?.map halfAway := by
  cases x with
  | nan => rfl
  | infinity negative => rfl
  | finite negative m e hc =>
    have hratio := scaled_ratio m 1 e
    have hden : 0 < (scaled m 1 e).2 := scaled_den_pos e Nat.one_pos
    rw [Nat.cast_one, div_one] at hratio
    have hden' : (0 : ℚ) < (scaled m 1 e).2 := by exact_mod_cast hden
    have hpos : ¬(m : ℚ) * 2 ^ e < 0 := not_lt.mpr (mul_nonneg (Nat.cast_nonneg m)
      (le_of_lt (two_zpow_pos e)))
    have hmagnitude : halfAway (m * 2 ^ e)
        = ((2 * (scaled m 1 e).1 + (scaled m 1 e).2) / (2 * (scaled m 1 e).2) : ℕ) := by
      rw [halfAway, if_neg hpos, round_eq, ← hratio, ← Nat.floor_div_eq_div (K := ℚ),
        Int.natCast_floor_eq_floor (by positivity)]
      congr 1
      push_cast
      field_simp
    rw [value?, Option.map_some, halfAway_withSign, hmagnitude]
    rfl

end WireSchema.Binary64
