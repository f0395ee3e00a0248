import Mathlib
import WireSchema.Binary64.Text
import WireSchema.Proofs.Binary64.Decimal
import WireSchema.Proofs.Text.Numeral

/-!
# Reading numbers

The positional form of a number is read back as that number. The digits around the point make
up the coefficient of the decimal fraction again, or that with zeros behind it, so that the value is
the same, and rounding depends on the value alone.

* `positionalDecimal_natCast`, `positionalDecimal_neg` — the digits around the point;
* `readDecimal?_positionalDecimal` — their value;
* `read?_positional` — the number;
* `positional_chars` — the characters of the positional form.
-/

namespace WireSchema.Binary64

open WireSchema.Text

/-! ### Digits -/

/-- The digits that numbers in decimal consist of. -/
def IsDecimalDigit (c : Char) : Prop :=
  ∃ d < 10, c = Nat.digitChar d

theorem IsDecimalDigit.elim {P : Char → Prop} (h : ∀ d : Fin 10, P (Nat.digitChar d)) {c : Char}
    (hc : IsDecimalDigit c) : P c := by
  obtain ⟨d, hd, rfl⟩ := hc
  exact h ⟨d, hd⟩

theorem isDecimalDigit_zero : IsDecimalDigit '0' :=
  ⟨0, by decide, rfl⟩

theorem isDecimalDigit_of_mem {n : ℕ} {c : Char} (h : c ∈ numeral 10 n) : IsDecimalDigit c :=
  digitChar_of_mem_toDigits (by decide) h

/-- Digits are split off what follows them. -/
theorem spanDigits_append {a : List Char} (ha : ∀ c ∈ a, IsDecimalDigit c) {t : List Char}
    (ht : ∀ c, t.head? = some c → ¬('0' ≤ c ∧ c ≤ '9')) : spanDigits (a ++ t) = (a, t) := by
  have hdigit : ∀ c ∈ a, ('0' ≤ c && c ≤ '9') = true := fun c hc =>
    IsDecimalDigit.elim (P := fun c => ('0' ≤ c && c ≤ '9') = true) (by decide) (ha c hc)
  have hstop : t.takeWhile (fun c => '0' ≤ c && c ≤ '9') = [] ∧
      t.dropWhile (fun c => '0' ≤ c && c ≤ '9') = t := by
    cases t with
    | nil => exact ⟨rfl, rfl⟩
    | cons c t =>
      have hc : ¬('0' ≤ c && c ≤ '9') = true := by
        rw [Bool.and_eq_true, decide_eq_true_eq, decide_eq_true_eq]
        exact ht c rfl
      exact ⟨List.takeWhile_cons_of_neg hc, List.dropWhile_cons_of_neg hc⟩
  rw [spanDigits, List.span_eq_takeWhile_dropWhile, List.takeWhile_append_of_pos hdigit,
    List.dropWhile_append_of_pos hdigit, hstop.1, hstop.2, List.append_nil]

theorem spanDigits_self {a : List Char} (ha : ∀ c ∈ a, IsDecimalDigit c) :
    spanDigits a = (a, []) := by
  have h := spanDigits_append ha (t := []) (fun c hc => nomatch hc)
  rwa [List.append_nil] at h

/-- Zeros behind digits multiply their value. -/
theorem readDigits_replicate_zero (n k : ℕ) :
    readDigits 10 n (List.replicate k '0') = some (n * 10 ^ k) := by
  induction k generalizing n with
  | zero => rw [List.replicate_zero, readDigits, pow_zero, mul_one]
  | succ k ih =>
    have hzero : digitOf 10 '0' = some 0 := by decide
    rw [List.replicate_succ, readDigits, hzero]
    show readDigits 10 (n * 10 + 0) _ = _
    rw [ih, Nat.add_zero, pow_succ, mul_assoc, mul_comm (10 ^ k)]

/-! ### Decimal fractions -/

theorem readDecimal?_whole {s : List Char} (hs : ∀ c ∈ s, IsDecimalDigit c) {n : ℕ}
    (h : readNumeral 10 s = some n) : readDecimal? s = some ⟨n, 0⟩ := by
  simp only [readDecimal?, spanDigits_self hs, List.append_nil, h, readExponent?, List.length_nil,
    Nat.cast_zero, sub_zero]

theorem readDecimal?_point {a b : List Char} (ha : ∀ c ∈ a, IsDecimalDigit c)
    (hb : ∀ c ∈ b, IsDecimalDigit c) {n : ℕ} (h : readNumeral 10 (a ++ b) = some n) :
    readDecimal? (a ++ '.' :: b) = some ⟨n, -(b.length : ℤ)⟩ := by
  have hspan : spanDigits (a ++ '.' :: b) = (a, '.' :: b) :=
    spanDigits_append ha (fun c hc => by cases hc; decide)
  simp only [readDecimal?, hspan, spanDigits_self hb, h, readExponent?, zero_sub]

/-- Without a fraction, the digits are those of the coefficient with zeros behind it. -/
theorem positionalDecimal_natCast (c k : ℕ) :
    positionalDecimal ⟨c, k⟩ ≠ [] ∧ (∀ b ∈ positionalDecimal ⟨c, k⟩, IsDecimalDigit b) ∧
      readNumeral 10 (positionalDecimal ⟨c, k⟩) = some (c * 10 ^ k) := by
  have hdigits : ∀ b ∈ numeral 10 c, IsDecimalDigit b := fun b hb => isDecimalDigit_of_mem hb
  have hread : readDigits 10 0 (numeral 10 c) = some c :=
    readDigits_toDigits (by decide) (by decide) c
  have hne : numeral 10 c ≠ [] := Nat.toDigits_ne_nil
  have hpositional : positionalDecimal ⟨c, k⟩
      = numeral 10 c ++ if c = 0 then [] else List.replicate k '0' := by
    unfold positionalDecimal
    exact if_pos (Int.natCast_nonneg k)
  rw [hpositional]
  refine ⟨List.append_ne_nil_of_left_ne_nil hne _, ?_, ?_⟩
  · intro b hb
    rcases List.mem_append.mp hb with hb | hb
    · exact hdigits b hb
    · split at hb
      · cases hb
      · rw [(List.mem_replicate.mp hb).2]
        exact isDecimalDigit_zero
  · rw [readNumeral_of_ne_nil (List.append_ne_nil_of_left_ne_nil hne _), readDigits_append, hread]
    by_cases hc : c = 0
    · rw [if_pos hc, hc, Nat.zero_mul]
      rfl
    · rw [if_neg hc]
      exact readDigits_replicate_zero c k

/-- With a fraction, the digits around the point are those of the coefficient with zeros before it,
so that there are enough for the fraction and one more. -/
theorem positionalDecimal_neg (c : ℕ) {k : ℕ} (hk : 0 < k) :
    ∃ a b, paddedNumeral 10 (k + 1) c = a ++ b ∧ a ≠ [] ∧ b.length = k ∧
      positionalDecimal ⟨c, -(k : ℤ)⟩ = a ++ '.' :: b := by
  have hx : ¬(0 : ℤ) ≤ -(k : ℤ) := by omega
  have hplaces : (-(-(k : ℤ))).toNat = k := by omega
  have hpadded : paddedNumeral 10 (k + 1) c
      = List.replicate (k + 1 - (numeral 10 c).length) '0' ++ numeral 10 c := rfl
  unfold positionalDecimal
  simp only [if_neg hx, hplaces]
  rw [hpadded]
  by_cases hlt : k < (numeral 10 c).length
  · rw [if_pos hlt, Nat.sub_eq_zero_of_le hlt, List.replicate_zero, List.nil_append]
    refine ⟨_, _, (List.take_append_drop _ _).symm, ?_, ?_, rfl⟩
    · rw [← List.length_pos_iff, List.length_take]
      omega
    · rw [List.length_drop]
      omega
  · rw [if_neg hlt, Nat.sub_add_comm (Nat.not_lt.mp hlt)]
    refine ⟨['0'], List.replicate (k - (numeral 10 c).length) '0' ++ numeral 10 c, rfl,
      List.cons_ne_nil _ _, ?_, rfl⟩
    rw [List.length_append, List.length_replicate]
    omega

/-- The exponent of a decimal fraction is a natural number or the negative of a positive one. -/
theorem exponent_cases (x : ℤ) : (∃ k : ℕ, x = k) ∨ ∃ k : ℕ, 0 < k ∧ x = -(k : ℤ) := by
  by_cases hx : 0 ≤ x
  · exact Or.inl (Int.eq_ofNat_of_zero_le hx)
  · exact Or.inr ⟨x.natAbs, by omega, by omega⟩

theorem isDecimalDigit_of_mem_padded {width n : ℕ} {c : Char} (h : c ∈ paddedNumeral 10 width n) :
    IsDecimalDigit c :=
  digitChar_of_mem_paddedNumeral (by decide) h

/-- The digits of a decimal fraction are read as a fraction of the same value. -/
theorem readDecimal?_positionalDecimal (d : Decimal) :
    ∃ d', readDecimal? (positionalDecimal d) = some d' ∧ d'.value = d.value := by
  obtain ⟨c, x⟩ := d
  rcases exponent_cases x with ⟨k, rfl⟩ | ⟨k, hk, rfl⟩
  · obtain ⟨-, hdigits, hread⟩ := positionalDecimal_natCast c k
    refine ⟨_, readDecimal?_whole hdigits hread, ?_⟩
    rw [Decimal.value, Decimal.value, zpow_zero, mul_one, zpow_natCast]
    push_cast
    rfl
  · obtain ⟨a, b, hab, -, hlength, hpositional⟩ := positionalDecimal_neg c hk
    have hdigits : ∀ ch ∈ a ++ b, IsDecimalDigit ch :=
      fun ch hch => isDecimalDigit_of_mem_padded (hab ▸ hch)
    have hread : readNumeral 10 (a ++ b) = some c :=
      hab ▸ readNumeral_paddedNumeral (by decide) (by decide) (k + 1) c
    rw [hpositional, ← hlength]
    exact ⟨_, readDecimal?_point (fun ch hch => hdigits ch (List.mem_append_left b hch))
      (fun ch hch => hdigits ch (List.mem_append_right a hch)) hread, rfl⟩

/-! ### Numbers -/

/-- The characters of positional forms: digits, a point, a sign, and the letters of the numbers that
are not finite. -/
def IsNumberChar (c : Char) : Prop :=
  IsDecimalDigit c ∨ c ∈ ['.', '-', 'N', 'a', 'i', 'n', 'f']

/-- A decimal fraction starts with a digit, and all its characters are digits or a point. -/
theorem positionalDecimal_chars (d : Decimal) :
    (∃ c, (positionalDecimal d).head? = some c ∧ IsDecimalDigit c) ∧
      ∀ c ∈ positionalDecimal d, IsDecimalDigit c ∨ c = '.' := by
  obtain ⟨n, x⟩ := d
  rcases exponent_cases x with ⟨k, rfl⟩ | ⟨k, hk, rfl⟩
  · obtain ⟨hne, hdigits, -⟩ := positionalDecimal_natCast n k
    obtain ⟨c, tail, hcons⟩ := List.exists_cons_of_ne_nil hne
    rw [hcons] at hdigits ⊢
    exact ⟨⟨c, rfl, hdigits c List.mem_cons_self⟩, fun b hb => Or.inl (hdigits b hb)⟩
  · obtain ⟨a, b, hab, hne, -, hpositional⟩ := positionalDecimal_neg n hk
    have hdigits : ∀ ch ∈ a ++ b, IsDecimalDigit ch :=
      fun ch hch => isDecimalDigit_of_mem_padded (hab ▸ hch)
    obtain ⟨c, tail, rfl⟩ := List.exists_cons_of_ne_nil hne
    rw [hpositional]
    refine ⟨⟨c, rfl, hdigits c List.mem_cons_self⟩, fun ch hch => ?_⟩
    rcases List.mem_append.mp hch with hch | hch
    · exact Or.inl (hdigits ch (List.mem_append_left b hch))
    rcases List.mem_cons.mp hch with rfl | hch
    · exact Or.inr rfl
    · exact Or.inl (hdigits ch (List.mem_append_right _ hch))

/-- A text that starts with a digit is no name of infinity or not-a-number. -/
theorem readMagnitude?_of_digit {s : List Char} {c : Char} (hs : s.head? = some c)
    (hc : IsDecimalDigit c) (negative : Bool) :
    readMagnitude? negative s = (readDecimal? s).map (ofDecimal negative) := by
  obtain ⟨tail, rfl⟩ : ∃ tail, s = c :: tail := by
    cases s with
    | nil => cases hs
    | cons b tail =>
      cases hs
      exact ⟨tail, rfl⟩
  have hlower : c.toLower ≠ 'i' ∧ c.toLower ≠ 'n' :=
    IsDecimalDigit.elim (P := fun c => c.toLower ≠ 'i' ∧ c.toLower ≠ 'n') (by decide) hc
  have hinf : ∀ rest, (c :: tail).map Char.toLower ≠ 'i' :: rest :=
    fun rest h => hlower.1 (List.cons.inj h).1
  have hnan : ∀ rest, (c :: tail).map Char.toLower ≠ 'n' :: rest :=
    fun rest h => hlower.2 (List.cons.inj h).1
  unfold readMagnitude?
  simp only
  rw [if_neg (not_or.mpr ⟨hinf _, hinf _⟩), if_neg (hnan _)]

theorem read?_positional_finite {negative : Bool} {m : ℕ} {e : ℤ} (h : IsCanonical m e) :
    read? (finite negative m e h).positional = some (.finite negative m e h) := by
  obtain ⟨⟨c, hhead, hc⟩, -⟩ := positionalDecimal_chars (shortest .larger m e)
  have hmagnitude : readMagnitude? negative (positionalDecimal (shortest .larger m e))
      = some (.finite negative m e h) := by
    obtain ⟨d, hread, hvalue⟩ := readDecimal?_positionalDecimal (shortest .larger m e)
    rw [readMagnitude?_of_digit hhead hc, hread, Option.map_some, ofDecimal_eq_nearest, hvalue,
      nearest_of_nearest_false (nearest_shortest .larger h)]
  rw [positional]
  cases negative with
  | true => exact hmagnitude
  | false =>
    have hsign : c ≠ '-' ∧ c ≠ '+' :=
      IsDecimalDigit.elim (P := fun c => c ≠ '-' ∧ c ≠ '+') (by decide) hc
    show read? (positionalDecimal (shortest .larger m e)) = _
    unfold read?
    split
    · rename_i heq
      rw [heq] at hhead
      cases hhead
      exact absurd rfl hsign.1
    · rename_i heq
      rw [heq] at hhead
      cases hhead
      exact absurd rfl hsign.2
    · exact hmagnitude

/-- A number is read back from its positional form. -/
theorem read?_positional (x : Binary64) : read? x.positional = some x := by
  cases x with
  | nan => decide
  | infinity negative => cases negative <;> decide
  | finite negative m e h => exact read?_positional_finite h

/-- The positional form of a number is not empty and consists of digits, signs, points and
letters. -/
theorem positional_chars (x : Binary64) :
    x.positional ≠ [] ∧ ∀ c ∈ x.positional, IsNumberChar c := by
  cases x with
  | nan =>
    have hletters : ∀ c ∈ ['N', 'a', 'N'], c ∈ ['.', '-', 'N', 'a', 'i', 'n', 'f'] := by simp
    exact ⟨List.cons_ne_nil _ _, fun c hc => Or.inr (hletters c hc)⟩
  | infinity negative =>
    have hletters : ∀ c ∈ ['-', 'i', 'n', 'f'], c ∈ ['.', '-', 'N', 'a', 'i', 'n', 'f'] := by simp
    cases negative with
    | true => exact ⟨List.cons_ne_nil _ _, fun c hc => Or.inr (hletters c hc)⟩
    | false =>
      exact ⟨List.cons_ne_nil _ _, fun c hc => Or.inr (hletters c (List.mem_cons_of_mem _ hc))⟩
  | finite negative m e h =>
    obtain ⟨⟨c, hhead, -⟩, hall⟩ := positionalDecimal_chars (shortest .larger m e)
    have hnumber : ∀ b ∈ positionalDecimal (shortest .larger m e), IsNumberChar b := by
      intro b hb
      rcases hall b hb with hdigit | rfl
      · exact Or.inl hdigit
      · exact Or.inr (by decide)
    rw [positional]
    cases negative with
    | true =>
      refine ⟨List.cons_ne_nil _ _, fun b hb => ?_⟩
      rcases List.mem_cons.mp hb with rfl | hb
      · exact Or.inr (by decide)
      · exact hnumber b hb
    | false =>
      refine ⟨?_, hnumber⟩
      intro hnil
      rw [show positionalDecimal (shortest .larger m e) = [] from hnil] at hhead
      cases hhead

/-- What is true of each character of numbers is true of those in a positional form. -/
theorem IsNumberChar.elim {P : Char → Prop} (h : ∀ d : Fin 10, P (Nat.digitChar d))
    (hother : ∀ c ∈ ['.', '-', 'N', 'a', 'i', 'n', 'f'], P c) {c : Char} (hc : IsNumberChar c) :
    P c := by
  rcases hc with hdigit | hc
  · exact hdigit.elim h
  · exact hother c hc

end WireSchema.Binary64
