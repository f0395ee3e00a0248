import Mathlib
import WireSchema.Text.Blank
import WireSchema.Text.Numeral

/-!
# Reading numerals

A numeral is read back as the number that it was written for, in every base from two to sixteen,
with zeros on its left or not, and wherever it is within the bound of its reader.

* `readNumeral_numeral`, `readNumeral_paddedNumeral` — unsigned numerals;
* `IsDigitChar` — the characters that a numeral consists of;
* `readBelow_numeral`, `readSigned64_of_digits` — readers with a bound.
-/

namespace WireSchema.Text

/-! ### Digits -/

theorem digitValue_digitChar {d : ℕ} (h : d < 16) : digitValue d.digitChar = some d := by
  have hall : ∀ d : Fin 16, digitValue (Nat.digitChar d) = some d.val := by decide
  exact hall ⟨d, h⟩

theorem digitOf_digitChar {base d : ℕ} (hbase : base ≤ 16) (h : d < base) :
    digitOf base d.digitChar = some d := by
  unfold digitOf
  rw [digitValue_digitChar (by omega)]
  exact if_pos h

/-- Digits are read one after the other. -/
theorem readDigits_append (base n : ℕ) (s t : List Char) :
    readDigits base n (s ++ t) = (readDigits base n s).bind fun m => readDigits base m t := by
  induction s generalizing n with
  | nil => rfl
  | cons c s ih =>
    rw [List.cons_append, readDigits, readDigits]
    cases digitOf base c with
    | none => rfl
    | some d => exact ih (n * base + d)

theorem readNumeral_of_ne_nil {base : ℕ} {s : List Char} (h : s ≠ []) :
    readNumeral base s = readDigits base 0 s := by
  cases s with
  | nil => exact absurd rfl h
  | cons c s => rfl

section Base

variable {base : ℕ} (hlo : 1 < base) (hhi : base ≤ 16)

include hlo hhi

/-- The digits of a number are read as that number. -/
theorem readDigits_toDigits (n : ℕ) : readDigits base 0 (Nat.toDigits base n) = some n := by
  induction n using Nat.strongRecOn with
  | ind n ih =>
    by_cases hn : n < base
    · rw [Nat.toDigits_of_lt_base hn, readDigits, digitOf_digitChar hhi hn]
      show some (0 * base + n) = some n
      rw [Nat.zero_mul, Nat.zero_add]
    · have hle : base ≤ n := Nat.not_lt.mp hn
      have hmod : n % base < base := Nat.mod_lt n (by omega)
      rw [Nat.toDigits_of_base_le hlo hle, readDigits_append,
        ih (n / base) (Nat.div_lt_self (by omega) hlo), Option.bind_some, readDigits,
        digitOf_digitChar hhi hmod]
      show some (n / base * base + n % base) = some n
      rw [Nat.div_add_mod']

theorem readNumeral_numeral (n : ℕ) : readNumeral base (numeral base n) = some n := by
  rw [numeral, readNumeral_of_ne_nil Nat.toDigits_ne_nil, readDigits_toDigits hlo hhi]

/-- Zeros before digits do not change their value. -/
theorem readDigits_zeros (k : ℕ) (s : List Char) :
    readDigits base 0 (List.replicate k '0' ++ s) = readDigits base 0 s := by
  induction k with
  | zero => rfl
  | succ k ih =>
    have hzero : digitOf base '0' = some 0 := digitOf_digitChar hhi (show 0 < base by omega)
    rw [List.replicate_succ, List.cons_append, readDigits, hzero]
    show readDigits base (0 * base + 0) _ = _
    rw [Nat.zero_mul, ih]

theorem readNumeral_paddedNumeral (width n : ℕ) :
    readNumeral base (paddedNumeral base width n) = some n := by
  have hne : paddedNumeral base width n ≠ [] :=
    fun h => Nat.toDigits_ne_nil (List.append_eq_nil_iff.mp h).2
  rw [readNumeral_of_ne_nil hne]
  show readDigits base 0 (List.replicate _ '0' ++ Nat.toDigits base n) = some n
  rw [readDigits_zeros hlo hhi, readDigits_toDigits hlo hhi]

end Base

/-- Zeros are put before digits up to the width. -/
theorem length_paddedNumeral {base width n : ℕ} (hlo : 1 < base) (hwidth : 0 < width)
    (h : n < base ^ width) : (paddedNumeral base width n).length = width := by
  have hle : (numeral base n).length ≤ width :=
    (Nat.length_toDigits_le_iff hlo hwidth).mpr h
  show (List.replicate (width - (numeral base n).length) '0' ++ numeral base n).length = width
  rw [List.length_append, List.length_replicate]
  omega

/-! ### The characters of numerals -/

theorem digitChar_of_mem_toDigits {base n : ℕ} (hlo : 1 < base) {c : Char}
    (h : c ∈ Nat.toDigits base n) : ∃ d < base, c = d.digitChar := by
  induction n using Nat.strongRecOn with
  | ind n ih =>
    by_cases hn : n < base
    · rw [Nat.toDigits_of_lt_base hn, List.mem_singleton] at h
      exact ⟨n, hn, h⟩
    · rw [Nat.toDigits_of_base_le hlo (Nat.not_lt.mp hn), List.mem_append, List.mem_singleton] at h
      rcases h with h | h
      · exact ih (n / base) (Nat.div_lt_self (by omega) hlo) h
      · exact ⟨n % base, Nat.mod_lt n (by omega), h⟩

theorem digitChar_of_mem_paddedNumeral {base width n : ℕ} (hlo : 1 < base) {c : Char}
    (h : c ∈ paddedNumeral base width n) : ∃ d < base, c = d.digitChar := by
  rcases List.mem_append.mp h with h | h
  · exact ⟨0, by omega, (List.mem_replicate.mp h).2⟩
  · exact digitChar_of_mem_toDigits hlo h

/-- A character is a digit or a lower-case letter of the bases up to sixteen. -/
def IsDigitChar (c : Char) : Prop :=
  ∃ d < 16, c = Nat.digitChar d

theorem isDigitChar_of_mem_paddedNumeral {base width n : ℕ} (hlo : 1 < base) (hhi : base ≤ 16)
    {c : Char} (h : c ∈ paddedNumeral base width n) : IsDigitChar c := by
  obtain ⟨d, hd, rfl⟩ := digitChar_of_mem_paddedNumeral hlo h
  exact ⟨d, by omega, rfl⟩

theorem isDigitChar_of_mem_numeral {base n : ℕ} (hlo : 1 < base) (hhi : base ≤ 16)
    {c : Char} (h : c ∈ numeral base n) : IsDigitChar c := by
  obtain ⟨d, hd, rfl⟩ := digitChar_of_mem_toDigits hlo h
  exact ⟨d, by omega, rfl⟩

namespace IsDigitChar

/-- What is true of each of the sixteen digits is true of a digit. -/
theorem elim {P : Char → Prop} (h : ∀ d : Fin 16, P (Nat.digitChar d)) {c : Char}
    (hc : IsDigitChar c) : P c := by
  obtain ⟨d, hd, rfl⟩ := hc
  exact h ⟨d, hd⟩

theorem not_isBlank {c : Char} (hc : IsDigitChar c) : isBlank c = false :=
  elim (P := fun c => isBlank c = false) (by decide) hc

theorem ne_comma {c : Char} (hc : IsDigitChar c) : c ≠ ',' :=
  elim (P := fun c => c ≠ ',') (by decide) hc

theorem ne_sign {c : Char} (hc : IsDigitChar c) : c ≠ '-' ∧ c ≠ '+' ∧ c ≠ '#' ∧ c ≠ '!' :=
  elim (P := fun c => c ≠ '-' ∧ c ≠ '+' ∧ c ≠ '#' ∧ c ≠ '!') (by decide) hc

end IsDigitChar

/-! ### Readers with a bound -/

theorem readBelow_lt {base bound n : ℕ} {s : List Char} (h : readBelow base bound s = some n) :
    n < bound := by
  unfold readBelow at h
  simp only at h
  split at h
  · split at h
    · rename_i hlt
      cases h
      exact hlt
    · cases h
  · cases h

theorem readBelow_of_digits {base bound n : ℕ} {s : List Char}
    (hs : ∀ c ∈ s, c ≠ '+') (h : readNumeral base s = some n) (hn : n < bound) :
    readBelow base bound s = some n := by
  unfold readBelow
  split
  · exact absurd rfl (hs '+' List.mem_cons_self)
  · simp only [h, if_pos hn]

theorem readBelow_numeral {base bound n : ℕ} (hlo : 1 < base) (hhi : base ≤ 16) (hn : n < bound) :
    readBelow base bound (numeral base n) = some n :=
  readBelow_of_digits (fun _ hc => (isDigitChar_of_mem_numeral hlo hhi hc).ne_sign.2.1)
    (readNumeral_numeral hlo hhi n) hn

theorem readSigned64_of_digits {base n : ℕ} {s : List Char} (hs : ∀ c ∈ s, IsDigitChar c)
    (h : readNumeral base s = some n) (hn : n < 0x8000000000000000) :
    readSigned64 base s = some (n : ℤ) := by
  unfold readSigned64
  split
  · exact absurd rfl (hs '-' List.mem_cons_self).ne_sign.1
  · rw [readBelow_of_digits (fun c hc => (hs c hc).ne_sign.2.1) h hn]

end WireSchema.Text
