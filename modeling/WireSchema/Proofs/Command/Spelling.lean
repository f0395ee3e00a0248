import Mathlib
import WireSchema.Proofs.Command.Number

/-!
# How integers and colors are spelled

The spellings that the readers of integers and colors are meant for, and those that they accept. An
integer is a minus sign or none, and then decimal digits, or hexadecimal digits behind their mark; a
color is six or eight hexadecimal digits behind a number sign. The readers accept all of these, and
besides them only spellings in which the digits have one more sign of their own. One number with two
minus signs cannot be negated, and there they stop. Nothing is claimed about numbers with a point,
which another reader takes.

* `IsDigit`, `Denotes` — digits in positional notation;
* `readNumeral_eq_some_iff` — the reader of digits;
* `IntegerText`, `ColorDigits` — the spellings that are meant;
* `OversignedText` — the spellings with a sign more, and what is read from them;
* `NegatesLeast` — the spellings at which the readers stop;
* `readInteger?_iff`, `readColor_iff` — what the readers accept;
* `readInteger?_eq_error_iff`, `readColor_eq_overflow_iff` — where they stop;
* `readInteger?_and_readColor_iff` — both, and that no spelling is of both kinds.
-/

namespace WireSchema

open WireSchema.Text

/-! ### Digits in positional notation -/

/-- A digit of a base up to sixteen, in either case, and the number that it stands for. -/
def IsDigit (base : ℕ) (c : Char) (d : ℕ) : Prop :=
  d < base ∧ (c = d.digitChar ∨ c = d.digitChar.toUpper)

/-- One or more digits, and the number that they denote in their base. -/
def Denotes (base : ℕ) (s : List Char) (n : ℕ) : Prop :=
  s ≠ [] ∧ ∃ ds, List.Forall₂ (IsDigit base) s ds ∧ n = Nat.ofDigits base ds.reverse

/-- The characters of digits are the 22 characters of hexadecimal numbers. -/
theorem digitValue_eq_some_iff {c : Char} {d : ℕ} :
    digitValue c = some d ↔ d < 16 ∧ (c = d.digitChar ∨ c = d.digitChar.toUpper) := by
  constructor
  · intro h
    have hlow : c.toNat < 128 := by
      unfold digitValue at h
      simp only at h
      split_ifs at h <;> omega
    have hall : ∀ n : Fin 128, ∀ d ∈ digitValue (Char.ofNat n),
        d < 16 ∧ (Char.ofNat n = d.digitChar ∨ Char.ofNat n = d.digitChar.toUpper) := by
      decide
    have hc := hall ⟨c.toNat, hlow⟩ d
    rw [Char.ofNat_toNat] at hc
    exact hc h
  · rintro ⟨hd, hc⟩
    have hall : ∀ d : Fin 16, digitValue (Nat.digitChar d) = some d.val ∧
        digitValue (Nat.digitChar d).toUpper = some d.val := by
      decide
    rcases hc with rfl | rfl
    · exact (hall ⟨d, hd⟩).1
    · exact (hall ⟨d, hd⟩).2

theorem digitOf_eq_some_iff {base : ℕ} (hbase : base ≤ 16) {c : Char} {d : ℕ} :
    digitOf base c = some d ↔ IsDigit base c d := by
  simp only [IsDigit]
  constructor
  · intro h
    have hlt := digitOf_lt h
    simp only [digitOf] at h
    split at h
    · rename_i d' hvalue
      split_ifs at h
      cases h
      exact ⟨hlt, (digitValue_eq_some_iff.mp hvalue).2⟩
    · cases h
  · rintro ⟨hlt, hc⟩
    simp only [digitOf]
    rw [digitValue_eq_some_iff.mpr ⟨by omega, hc⟩]
    exact if_pos hlt

/-- Digits behind a number that was read continue its positional notation. -/
theorem readDigits_eq_some_iff {base : ℕ} (hbase : base ≤ 16) {s : List Char} {n v : ℕ} :
    readDigits base n s = some v ↔ ∃ ds, List.Forall₂ (IsDigit base) s ds ∧
      v = n * base ^ ds.length + Nat.ofDigits base ds.reverse := by
  induction s generalizing n with
  | nil =>
    simp only [readDigits, List.forall₂_nil_left_iff, exists_eq_left, List.length_nil, pow_zero,
      mul_one, List.reverse_nil, Nat.ofDigits_nil, add_zero, Option.some.injEq]
    exact eq_comm
  | cons c s ih =>
    have hsplit : ∀ (d : ℕ) (ds : List ℕ),
        n * base ^ (d :: ds).length + Nat.ofDigits base (d :: ds).reverse
          = (n * base + d) * base ^ ds.length + Nat.ofDigits base ds.reverse := by
      intro d ds
      rw [List.reverse_cons, Nat.ofDigits_append, Nat.ofDigits_singleton, List.length_reverse,
        List.length_cons]
      ring
    rw [readDigits]
    constructor
    · intro h
      split at h
      · rename_i d hd
        obtain ⟨ds, hds, hv⟩ := ih.mp h
        exact ⟨d :: ds, .cons ((digitOf_eq_some_iff hbase).mp hd) hds, hv.trans (hsplit d ds).symm⟩
      · cases h
    · rintro ⟨ds, hds, hv⟩
      cases hds with
      | @cons _ d _ ds hd hds =>
        simp only [(digitOf_eq_some_iff hbase).mpr hd]
        exact ih.mpr ⟨ds, hds, hv.trans (hsplit d ds)⟩

/-- A numeral is read as the number that its digits denote, and nothing else is read. -/
theorem readNumeral_eq_some_iff {base : ℕ} (hbase : base ≤ 16) {s : List Char} {n : ℕ} :
    readNumeral base s = some n ↔ Denotes base s n := by
  simp only [Denotes]
  cases s with
  | nil => simp [readNumeral]
  | cons c s =>
    rw [readNumeral_of_ne_nil (List.cons_ne_nil c s), readDigits_eq_some_iff hbase]
    simp

/-- A numeral of so many digits denotes a number below that power of the base. -/
theorem Denotes.lt_pow {base : ℕ} (hbase : 1 < base) {s : List Char} {n : ℕ}
    (h : Denotes base s n) : n < base ^ s.length := by
  obtain ⟨-, ds, hds, rfl⟩ := h
  have hlt : ∀ d ∈ ds.reverse, d < base := by
    intro d hd
    obtain ⟨c, -, hc⟩ := exists_of_forall₂ hds (List.mem_reverse.mp hd)
    exact hc.1
  have hlength := Nat.ofDigits_lt_base_pow_length hbase hlt
  rwa [List.length_reverse, ← hds.length_eq] at hlength

/-- What is true of the characters of all digits is true of the characters of a numeral. -/
theorem Denotes.forall_mem {base bound : ℕ} (hbase : base ≤ bound) {P : Char → Prop}
    (hP : ∀ d < bound, P (Nat.digitChar d) ∧ P (Nat.digitChar d).toUpper) {s : List Char} {n : ℕ}
    (h : Denotes base s n) : ∀ c ∈ s, P c := by
  obtain ⟨-, ds, hds, -⟩ := h
  intro c hc
  obtain ⟨d, -, hd⟩ := exists_of_forall₂ hds.flip hc
  have hlt := Nat.lt_of_lt_of_le hd.1 hbase
  rcases hd.2 with rfl | rfl
  · exact (hP d hlt).1
  · exact (hP d hlt).2

/-- Numerals have no signs. -/
theorem Denotes.ne_sign {base : ℕ} (hbase : base ≤ 16) {s : List Char} {n : ℕ}
    (h : Denotes base s n) : ∀ c ∈ s, c ≠ '+' ∧ c ≠ '-' :=
  h.forall_mem hbase (P := fun c => c ≠ '+' ∧ c ≠ '-') (by decide)

/-! ### Integers -/

/-- The digits of an integer, decimal ones or hexadecimal ones behind their mark, and the number
that they denote. In front of the digits stands a sign of their own, or nothing. -/
inductive Magnitude (sign : List Char) : List Char → ℕ → Prop
  | decimal {s : List Char} {n : ℕ} (h : Denotes 10 s n) : Magnitude sign (sign ++ s) n
  | lowerHex {s : List Char} {n : ℕ} (h : Denotes 16 s n) :
      Magnitude sign ('0' :: 'x' :: (sign ++ s)) n
  | upperHex {s : List Char} {n : ℕ} (h : Denotes 16 s n) :
      Magnitude sign ('0' :: 'X' :: (sign ++ s)) n

/-- An integer as it is meant to be spelled: a minus sign or none, and digits that denote a
magnitude of at most `2 ^ 63 - 1`. -/
inductive IntegerText : List Char → ℤ → Prop
  | positive {s : List Char} {n : ℕ} (h : Magnitude [] s n) (hn : n ≤ 2 ^ 63 - 1) :
      IntegerText s n
  | negative {s : List Char} {n : ℕ} (h : Magnitude [] s n) (hn : n ≤ 2 ^ 63 - 1) :
      IntegerText ('-' :: s) (-n)

/-- An integer whose digits have a sign of their own, and what is read from it. Two minus signs
cancel. -/
inductive OversignedText : List Char → ℤ → Prop
  | plus {s : List Char} {n : ℕ} (h : Magnitude ['+'] s n) (hn : n ≤ 2 ^ 63 - 1) :
      OversignedText s n
  | minusPlus {s : List Char} {n : ℕ} (h : Magnitude ['+'] s n) (hn : n ≤ 2 ^ 63 - 1) :
      OversignedText ('-' :: s) (-n)
  | minus {s : List Char} {n : ℕ} (h : Magnitude ['-'] s n) (hhead : s.head? ≠ some '-')
      (hn : n ≤ 2 ^ 63) : OversignedText s (-n)
  | minusMinus {s : List Char} {n : ℕ} (h : Magnitude ['-'] s n) (hn : n ≤ 2 ^ 63 - 1) :
      OversignedText ('-' :: s) n

/-- A text that negates the least 64-bit integer: a minus sign, and behind it digits of `2 ^ 63`
that have a minus sign of their own. -/
def NegatesLeast (s : List Char) : Prop :=
  ∃ rest, trim s = '-' :: rest ∧ Magnitude ['-'] rest (2 ^ 63)

/-! ### Readers of integers -/

/-- The signs in front of digits, and the number that the reader of digits makes of a magnitude. -/
inductive SignedBy : List Char → ℕ → ℤ → Prop
  | bare {n : ℕ} (hn : n ≤ 2 ^ 63 - 1) : SignedBy [] n n
  | plus {n : ℕ} (hn : n ≤ 2 ^ 63 - 1) : SignedBy ['+'] n n
  | minus {n : ℕ} (hn : n ≤ 2 ^ 63) : SignedBy ['-'] n (-n)

/-- A plus sign in front of digits, or nothing. -/
def OptionalPlus (sign : List Char) : Prop :=
  sign = [] ∨ sign = ['+']

theorem readBelow_plus (base bound : ℕ) (digits : List Char) :
    readBelow base bound ('+' :: digits) = (readNumeral base digits).filter (· < bound) := by
  simp only [readBelow]
  cases readNumeral base digits with
  | none => rfl
  | some n => simp [Option.filter]

theorem readBelow_of_head? (base bound : ℕ) {s : List Char} (hhead : s.head? ≠ some '+') :
    readBelow base bound s = (readNumeral base s).filter (· < bound) := by
  unfold readBelow
  split
  · exact absurd rfl hhead
  · simp only
    cases readNumeral base s with
    | none => rfl
    | some n => simp [Option.filter]

/-- A numeral below a bound is read with a plus sign or without. -/
theorem readBelow_eq_some_iff {base bound : ℕ} (hbase : base ≤ 16) {s : List Char} {n : ℕ} :
    readBelow base bound s = some n ↔ n < bound ∧
      ∃ sign digits, OptionalPlus sign ∧ s = sign ++ digits ∧ Denotes base digits n := by
  have hdigits : ∀ digits, (readNumeral base digits).filter (· < bound) = some n ↔
      n < bound ∧ Denotes base digits n := by
    intro digits
    rw [Option.filter_eq_some_iff, readNumeral_eq_some_iff hbase, decide_eq_true_eq, and_comm]
  by_cases hplus : s.head? = some '+'
  · obtain ⟨digits, rfl⟩ := List.head?_eq_some_iff.mp hplus
    rw [readBelow_plus, hdigits]
    refine and_congr_right fun _ => ?_
    constructor
    · intro h
      exact ⟨['+'], digits, Or.inr rfl, rfl, h⟩
    · rintro ⟨sign, digits', rfl | rfl, heq, h⟩
      · have hsign := h.ne_sign hbase '+' (by rw [← List.nil_append digits', ← heq]; simp)
        exact absurd rfl hsign.1
      · cases heq
        exact h
  · rw [readBelow_of_head? base bound hplus, hdigits]
    refine and_congr_right fun _ => ?_
    constructor
    · intro h
      exact ⟨[], s, Or.inl rfl, rfl, h⟩
    · rintro ⟨sign, digits, rfl | rfl, rfl, h⟩
      · exact h
      · exact absurd rfl hplus

/-- Digits are read with a sign of their own or without. -/
theorem readSigned64_eq_some_iff {base : ℕ} (hbase : base ≤ 16) {s : List Char} {v : ℤ} :
    readSigned64 base s = some v ↔
      ∃ sign digits n, s = sign ++ digits ∧ Denotes base digits n ∧ SignedBy sign n v := by
  constructor
  · intro h
    simp only [readSigned64] at h
    split at h
    · rename_i digits
      split at h
      · rename_i n hn
        split_ifs at h with hle
        cases h
        exact ⟨['-'], digits, n, rfl, (readNumeral_eq_some_iff hbase).mp hn, .minus hle⟩
      · cases h
    · split at h
      · rename_i n hn
        cases h
        obtain ⟨hlt, sign, digits, hplus, rfl, hdigits⟩ := (readBelow_eq_some_iff hbase).mp hn
        refine ⟨sign, digits, n, rfl, hdigits, ?_⟩
        rcases hplus with rfl | rfl
        · exact .bare (by omega)
        · exact .plus (by omega)
      · cases h
  · rintro ⟨sign, digits, n, rfl, hdigits, hsign⟩
    have hbelow : ∀ sign, OptionalPlus sign → n ≤ 2 ^ 63 - 1 →
        readSigned64 base (sign ++ digits) = some (n : ℤ) := by
      intro sign hplus hn
      have hread : readBelow base 0x8000000000000000 (sign ++ digits) = some n :=
        (readBelow_eq_some_iff hbase).mpr ⟨by omega, sign, digits, hplus, rfl, hdigits⟩
      have hminus : ∀ c ∈ sign ++ digits, c ≠ '-' := by
        rw [List.forall_mem_append]
        refine ⟨?_, fun c hc => (hdigits.ne_sign hbase c hc).2⟩
        rcases hplus with rfl | rfl <;> simp
      simp only [readSigned64]
      split
      · rename_i heq
        exact absurd rfl (hminus '-' (by rw [heq]; exact List.mem_cons_self))
      · rw [hread]
    cases hsign with
    | bare hn => exact hbelow [] (Or.inl rfl) hn
    | plus hn => exact hbelow ['+'] (Or.inr rfl) hn
    | minus hn =>
      show readSigned64 base ('-' :: digits) = _
      rw [readSigned64, (readNumeral_eq_some_iff hbase).mpr hdigits]
      exact if_pos hn

/-- A magnitude is read with a sign of its digits or without. -/
theorem readMagnitude?_eq_some_iff {s : List Char} {v : ℤ} :
    readMagnitude? s = some v ↔ ∃ sign n, Magnitude sign s n ∧ SignedBy sign n v := by
  constructor
  · intro h
    unfold readMagnitude? at h
    split at h <;> obtain ⟨sign, digits, n, rfl, hdigits, hsign⟩ :=
      (readSigned64_eq_some_iff (by decide)).mp h
    · exact ⟨sign, n, .lowerHex hdigits, hsign⟩
    · exact ⟨sign, n, .upperHex hdigits, hsign⟩
    · exact ⟨sign, n, .decimal hdigits, hsign⟩
  · rintro ⟨sign, n, h, hsign⟩
    cases h with
    | @decimal digits _ h =>
      have hread := (readSigned64_eq_some_iff (by decide)).mpr ⟨sign, digits, n, rfl, h, hsign⟩
      -- Neither decimal digits nor a sign are the mark of a hexadecimal number.
      have hmark : ∀ c ∈ sign ++ digits, c ≠ 'x' ∧ c ≠ 'X' := by
        rw [List.forall_mem_append]
        refine ⟨?_, h.forall_mem (P := fun c => c ≠ 'x' ∧ c ≠ 'X') (Nat.le_refl 10) (by decide)⟩
        cases hsign <;> simp
      unfold readMagnitude?
      split
      · rename_i heq
        exact absurd rfl (hmark 'x' (by rw [heq]; simp)).1
      · rename_i heq
        exact absurd rfl (hmark 'X' (by rw [heq]; simp)).2
      · exact hread
    | lowerHex h => exact (readSigned64_eq_some_iff (by decide)).mpr ⟨sign, _, n, rfl, h, hsign⟩
    | upperHex h => exact (readSigned64_eq_some_iff (by decide)).mpr ⟨sign, _, n, rfl, h, hsign⟩

/-! ### Spellings of integers -/

/-- The digits of an integer that is spelled without a sign of their own have none at all. -/
theorem Magnitude.ne_sign {s : List Char} {n : ℕ} (h : Magnitude [] s n) :
    ∀ c ∈ s, c ≠ '+' ∧ c ≠ '-' := by
  cases h with
  | decimal h => exact h.ne_sign (by decide)
  | lowerHex h => simpa using h.ne_sign (by decide)
  | upperHex h => simpa using h.ne_sign (by decide)

/-- A sign in front of digits is one of the characters of their spelling. -/
theorem Magnitude.subset {sign s : List Char} {n : ℕ} (h : Magnitude sign s n) : sign ⊆ s := by
  intro c hc
  cases h <;> simp [hc]

/-- A minus sign stands in front only if the digits have it as a sign of their own. -/
theorem Magnitude.head?_ne_minus {sign s : List Char} {n : ℕ} (h : Magnitude sign s n)
    (hsign : OptionalPlus sign) : s.head? ≠ some '-' := by
  intro hhead
  cases h with
  | @decimal digits _ h =>
    rcases hsign with rfl | rfl
    · have hmem : '-' ∈ digits := List.mem_of_mem_head? hhead
      exact (h.ne_sign (by decide) '-' hmem).2 rfl
    · cases hhead
  | lowerHex h => cases hhead
  | upperHex h => cases hhead

/-- No spelling that is meant has digits with a sign of their own. -/
theorem IntegerText.not_oversignedText {s : List Char} {v w : ℤ} (h : IntegerText s v) :
    ¬OversignedText s w := by
  intro hoversigned
  cases h with
  | positive h hn =>
    have hsign := h.ne_sign
    cases hoversigned with
    | plus h' => exact (hsign '+' (h'.subset List.mem_cons_self)).1 rfl
    | minusPlus h' => exact (hsign '-' List.mem_cons_self).2 rfl
    | minus h' => exact (hsign '-' (h'.subset List.mem_cons_self)).2 rfl
    | minusMinus h' => exact (hsign '-' List.mem_cons_self).2 rfl
  | negative h hn =>
    have hsign := h.ne_sign
    cases hoversigned with
    | plus h' => exact h'.head?_ne_minus (Or.inr rfl) rfl
    | minusPlus h' => exact (hsign '+' (h'.subset List.mem_cons_self)).1 rfl
    | minus h' hhead => exact hhead rfl
    | minusMinus h' => exact (hsign '-' (h'.subset List.mem_cons_self)).2 rfl

/-- A magnitude that is read behind a minus sign is negated. -/
theorem readInteger?_of_minus {s rest : List Char} (htrim : trim s = '-' :: rest) {m : ℤ}
    (hrest : readMagnitude? rest = some m) :
    readInteger? s = (checked64 .negation (-m)).map some := by
  unfold readInteger?
  simp only [htrim, hrest]

theorem readInteger?_of_minus_none {s rest : List Char} (htrim : trim s = '-' :: rest)
    (hrest : readMagnitude? rest = none) : readInteger? s = .ok none := by
  unfold readInteger?
  simp only [htrim, hrest]

theorem readInteger?_of_not_minus {s : List Char} (htrim : (trim s).head? ≠ some '-') :
    readInteger? s = .ok (readMagnitude? (trim s)) := by
  unfold readInteger?
  split
  · rename_i heq
    rw [heq] at htrim
    exact absurd rfl htrim
  · rfl

theorem readMagnitude?_bounds {s : List Char} {v : ℤ} (h : readMagnitude? s = some v) :
    -2 ^ 63 ≤ v ∧ v < 2 ^ 63 := by
  obtain ⟨sign, n, -, hsign⟩ := readMagnitude?_eq_some_iff.mp h
  cases hsign <;> omega

/-- Only digits with a minus sign give the least integer. -/
theorem readMagnitude?_eq_least_iff {s : List Char} :
    readMagnitude? s = some (-2 ^ 63) ↔ Magnitude ['-'] s (2 ^ 63) := by
  rw [readMagnitude?_eq_some_iff]
  constructor
  · rintro ⟨sign, n, hmagnitude, hsign⟩
    generalize hleast : (-2 ^ 63 : ℤ) = v at hsign
    cases hsign with
    | bare hn => omega
    | plus hn => omega
    | minus hn =>
      obtain rfl : n = 2 ^ 63 := by omega
      exact hmagnitude
  · exact fun h => ⟨['-'], 2 ^ 63, h, .minus (Nat.le_refl _)⟩

/-- All other numbers that are read can be negated. -/
theorem checked64_negation {m : ℤ} (hlo : -2 ^ 63 < m) (hhi : m < 2 ^ 63) :
    checked64 .negation (-m) = .ok (-m) :=
  checked64_of_bounds .negation ⟨by omega, by omega⟩

/-- Behind a minus sign, the number of a magnitude is negated once more. -/
theorem readMagnitude?_negated_iff {rest : List Char} {v : ℤ} :
    (∃ m, readMagnitude? rest = some m ∧ checked64 .negation (-m) = .ok v) ↔
      IntegerText ('-' :: rest) v ∨ OversignedText ('-' :: rest) v := by
  constructor
  · rintro ⟨m, hm, hnegated⟩
    obtain ⟨sign, n, hmagnitude, hsign⟩ := readMagnitude?_eq_some_iff.mp hm
    obtain ⟨hbounds, rfl⟩ := checked64_eq_ok.mp hnegated
    cases hsign with
    | bare hn => exact Or.inl (.negative hmagnitude hn)
    | plus hn => exact Or.inr (.minusPlus hmagnitude hn)
    | minus hn =>
      rw [neg_neg] at hbounds ⊢
      exact Or.inr (.minusMinus hmagnitude (by omega))
  · rintro (h | h)
    · cases h with
      | positive h hn => exact absurd rfl (h.head?_ne_minus (Or.inl rfl))
      | negative h hn =>
        exact ⟨_, readMagnitude?_eq_some_iff.mpr ⟨[], _, h, .bare hn⟩,
          checked64_negation (by omega) (by omega)⟩
    · cases h with
      | plus h hn => exact absurd rfl (h.head?_ne_minus (Or.inr rfl))
      | minusPlus h hn =>
        exact ⟨_, readMagnitude?_eq_some_iff.mpr ⟨['+'], _, h, .plus hn⟩,
          checked64_negation (by omega) (by omega)⟩
      | minus h hhead hn => exact absurd rfl hhead
      | @minusMinus _ n h hn =>
        refine ⟨-n, readMagnitude?_eq_some_iff.mpr ⟨['-'], n, h, .minus (by omega)⟩, ?_⟩
        rw [checked64_negation (by omega) (by omega), neg_neg]

/-- Without a minus sign in front, the number is that of its magnitude. -/
theorem readMagnitude?_iff_of_head? {s : List Char} {v : ℤ} (hhead : s.head? ≠ some '-') :
    readMagnitude? s = some v ↔ IntegerText s v ∨ OversignedText s v := by
  rw [readMagnitude?_eq_some_iff]
  constructor
  · rintro ⟨sign, n, hmagnitude, hsign⟩
    cases hsign with
    | bare hn => exact Or.inl (.positive hmagnitude hn)
    | plus hn => exact Or.inr (.plus hmagnitude hn)
    | minus hn => exact Or.inr (.minus hmagnitude hhead hn)
  · rintro (h | h)
    · cases h with
      | positive h hn => exact ⟨[], _, h, .bare hn⟩
      | negative h hn => exact absurd rfl hhead
    · cases h with
      | plus h hn => exact ⟨['+'], _, h, .plus hn⟩
      | minus h _ hn => exact ⟨['-'], _, h, .minus hn⟩
      | minusPlus h hn => exact absurd rfl hhead
      | minusMinus h hn => exact absurd rfl hhead

/-- A spelling has a minus sign in front, or its first character is another. -/
theorem minus_or_head? (s : List Char) : (∃ rest, s = '-' :: rest) ∨ s.head? ≠ some '-' := by
  by_cases h : s.head? = some '-'
  · exact Or.inl (List.head?_eq_some_iff.mp h)
  · exact Or.inr h

/-- The integers that are read: those that are spelled as meant, and those with a sign more. -/
theorem readInteger?_iff {s : List Char} {v : ℤ} :
    readInteger? s = .ok (some v) ↔ IntegerText (trim s) v ∨ OversignedText (trim s) v := by
  rcases minus_or_head? (trim s) with ⟨rest, htrim⟩ | hhead
  · rw [htrim, ← readMagnitude?_negated_iff]
    cases hrest : readMagnitude? rest with
    | none => simp [readInteger?_of_minus_none htrim hrest]
    | some m => simp [readInteger?_of_minus htrim hrest, map_eq_ok]
  · rw [readInteger?_of_not_minus hhead, Except.ok.injEq, readMagnitude?_iff_of_head? hhead]

/-- The reader of integers stops where the least integer is negated, and nowhere else. -/
theorem readInteger?_eq_error_iff {s : List Char} {e : CommandError} :
    readInteger? s = .error e ↔ NegatesLeast s ∧ e = .overflow .negation (2 ^ 63) := by
  rcases minus_or_head? (trim s) with ⟨rest, htrim⟩ | hhead
  · have hleast : NegatesLeast s ↔ readMagnitude? rest = some (-2 ^ 63) := by
      rw [NegatesLeast, readMagnitude?_eq_least_iff, htrim]
      simp only [List.cons.injEq, true_and, exists_eq_left']
    cases hrest : readMagnitude? rest with
    | none => simp [readInteger?_of_minus_none htrim hrest, hleast, hrest]
    | some m =>
      have hbounds := readMagnitude?_bounds hrest
      rw [readInteger?_of_minus htrim hrest, hleast, hrest, Option.some.injEq]
      by_cases hm : m = -2 ^ 63
      · rw [hm, and_iff_right rfl]
        show Except.error _ = _ ↔ _
        rw [Except.error.injEq, eq_comm]
        rfl
      · rw [checked64_negation (by omega) hbounds.2]
        constructor
        · intro h
          cases h
        · exact fun h => absurd h.1 hm
  · rw [readInteger?_of_not_minus hhead]
    constructor
    · intro h
      cases h
    · rintro ⟨⟨rest, htrim, -⟩, -⟩
      rw [htrim] at hhead
      exact absurd rfl hhead

/-! ### Colors -/

/-- The digits of a color: six, without its alpha value, or eight. In front of them stands nothing,
or a sign that counts as one of them. -/
inductive ColorDigits (sign : List Char) : List Char → ℤ → Prop
  | rgb {s : List Char} {n : ℕ} (h : Denotes 16 s n) (hlength : (sign ++ s).length = 6) :
      ColorDigits sign (sign ++ s) (0xff000000 + n)
  | argb {s : List Char} {n : ℕ} (h : Denotes 16 s n) (hlength : (sign ++ s).length = 8) :
      ColorDigits sign (sign ++ s) n

/-- The digits of a color have no sign among them unless one is spelled. -/
theorem ColorDigits.not_plus {s : List Char} {v w : ℤ} (h : ColorDigits [] s v) :
    ¬ColorDigits ['+'] s w := by
  have hsign : '+' ∉ s := by
    intro hmem
    cases h with
    | rgb h => exact (h.ne_sign (by decide) '+' hmem).1 rfl
    | argb h => exact (h.ne_sign (by decide) '+' hmem).1 rfl
  intro hplus
  cases hplus <;> exact hsign List.mem_cons_self

/-- A plus sign and hexadecimal digits behind it take one byte each. -/
theorem length_encode_of_denotes {sign s : List Char} {n : ℕ} (hsign : OptionalPlus sign)
    (h : Denotes 16 s n) : (Utf8.encode (sign ++ s)).length = (sign ++ s).length := by
  apply length_encode_of_ascii
  rw [List.forall_mem_append]
  refine ⟨?_, h.forall_mem (P := fun c => c.toNat < 0x80) (Nat.le_refl 16) (by decide)⟩
  rcases hsign with rfl | rfl
  · simp
  · simp

/-- The number that so many characters denote, if one of them may be a sign. -/
theorem Denotes.lt_of_length {sign s : List Char} {n k : ℕ} (h : Denotes 16 s n)
    (hlength : (sign ++ s).length = k) : n < 16 ^ k := by
  rw [List.length_append] at hlength
  exact Nat.lt_of_lt_of_le (h.lt_pow (by decide)) (Nat.pow_le_pow_right (by decide) (by omega))

/-- The alpha value that is left out stands in bits of its own. -/
theorem alpha_or_eq {n : ℕ} (hn : n < 16 ^ 6) : 0xff000000 ||| n = 0xff000000 + n := by
  rw [show 0xff000000 = 2 ^ 24 * 0xff from rfl]
  exact (Nat.two_pow_add_eq_or_of_lt (show n < 2 ^ 24 from hn) 0xff).symm

theorem readColorDigits?_eq_some_iff {s : List Char} {v : ℤ} :
    readColorDigits? s = some v ↔ ∃ n, readBelow 16 0x100000000 s = some n ∧
      ((Utf8.encode s).length = 6 ∧ v = ((0xff000000 ||| n : ℕ) : ℤ) ∨
        (Utf8.encode s).length = 8 ∧ v = n) := by
  unfold readColorDigits?
  simp only
  cases readBelow 16 0x100000000 s with
  | none => split_ifs <;> simp
  | some n =>
    split_ifs with hsix height
    · simp [hsix, eq_comm]
    · simp [height, eq_comm]
    · simp [hsix, height]

/-- The digits of colors that are read: those that are meant, and those with a sign among them. -/
theorem readColorDigits?_iff {s : List Char} {v : ℤ} :
    readColorDigits? s = some v ↔ ∃ sign, OptionalPlus sign ∧ ColorDigits sign s v := by
  rw [readColorDigits?_eq_some_iff]
  constructor
  · rintro ⟨n, hn, hlength⟩
    obtain ⟨-, sign, digits, hsign, rfl, hdigits⟩ := (readBelow_eq_some_iff (by decide)).mp hn
    rw [length_encode_of_denotes hsign hdigits] at hlength
    refine ⟨sign, hsign, ?_⟩
    rcases hlength with ⟨hsix, rfl⟩ | ⟨height, rfl⟩
    · rw [alpha_or_eq (hdigits.lt_of_length hsix), Nat.cast_add]
      exact .rgb hdigits hsix
    · exact .argb hdigits height
  · rintro ⟨sign, hsign, h⟩
    have hread : ∀ digits n, Denotes 16 digits n → n < 0x100000000 →
        readBelow 16 0x100000000 (sign ++ digits) = some n := fun digits n hdigits hn =>
      (readBelow_eq_some_iff (by decide)).mpr ⟨hn, sign, digits, hsign, rfl, hdigits⟩
    cases h with
    | @rgb digits n hdigits hlength =>
      have hn := hdigits.lt_of_length hlength
      refine ⟨n, hread digits n hdigits (by omega), Or.inl ?_⟩
      rw [length_encode_of_denotes hsign hdigits, alpha_or_eq hn, Nat.cast_add]
      exact ⟨hlength, rfl⟩
    | @argb digits n hdigits hlength =>
      have hn := hdigits.lt_of_length hlength
      refine ⟨n, hread digits n hdigits (by omega), Or.inr ?_⟩
      rw [length_encode_of_denotes hsign hdigits]
      exact ⟨hlength, rfl⟩

theorem readInteger?_trim (s : List Char) : readInteger? (trim s) = readInteger? s := by
  unfold readInteger?
  rw [trim_trim]

/-- The colors that are read: digits behind a number sign, and integers of 32 bits. -/
theorem readColor_iff {field : String} {s : List Char} {v : ℤ} :
    readColor field s = .ok v ↔
      (∃ digits, trim s = '#' :: digits ∧ (ColorDigits [] digits v ∨ ColorDigits ['+'] digits v)) ∨
        (trim s).head? ≠ some '#' ∧ readInteger? s = .ok (some v) ∧ 0 ≤ v ∧ v < 2 ^ 32 := by
  by_cases hmark : ∃ digits, trim s = '#' :: digits
  · obtain ⟨digits, htrim⟩ := hmark
    rw [readColor_of_mark htrim, checkColor_eq_ok, readColorDigits?_iff, htrim]
    simp [OptionalPlus]
  · have hhead : (trim s).head? ≠ some '#' := by
      intro h
      obtain ⟨digits, htrim⟩ := List.head?_eq_some_iff.mp h
      exact hmark ⟨digits, htrim⟩
    rw [readColor_of_no_mark (fun digits htrim => hmark ⟨digits, htrim⟩), readInteger?_trim,
      bind_eq_ok]
    have hfilter : ∀ read : Option ℤ,
        checkColor field s (read.filter fun v => 0 ≤ v && v < 0x100000000) = .ok v ↔
          read = some v ∧ 0 ≤ v ∧ v < 2 ^ 32 := by
      intro read
      rw [checkColor_eq_ok, Option.filter_eq_some_iff, Bool.and_eq_true, decide_eq_true_eq,
        decide_eq_true_eq]
      rfl
    constructor
    · rintro ⟨read, hread, h⟩
      obtain ⟨rfl, hv⟩ := (hfilter read).mp h
      exact Or.inr ⟨hhead, hread, hv⟩
    · rintro (⟨digits, htrim, -⟩ | ⟨-, hread, hv⟩)
      · exact absurd ⟨digits, htrim⟩ hmark
      · exact ⟨some v, hread, (hfilter _).mpr ⟨rfl, hv⟩⟩

theorem checkColor_ne_overflow (field : String) (s : List Char) (color : Option ℤ)
    (operation : Operation) (result : ℤ) :
    checkColor field s color ≠ .error (.overflow operation result) := by
  cases color with
  | none => simp [checkColor]
  | some v => simp [checkColor]

/-- The reader of colors stops where the reader of integers does. -/
theorem readColor_eq_overflow_iff {field : String} {s : List Char} {operation : Operation}
    {result : ℤ} :
    readColor field s = .error (.overflow operation result) ↔
      readInteger? s = .error (.overflow operation result) := by
  by_cases hmark : ∃ digits, trim s = '#' :: digits
  · obtain ⟨digits, htrim⟩ := hmark
    have hread : readInteger? s = .ok (readMagnitude? (trim s)) :=
      readInteger?_of_not_minus (by simp [htrim])
    rw [readColor_of_mark htrim, hread]
    simp [checkColor_ne_overflow]
  · rw [readColor_of_no_mark (fun digits htrim => hmark ⟨digits, htrim⟩), readInteger?_trim]
    cases readInteger? s with
    | error e =>
      show Except.error e = _ ↔ _
      rw [Except.error.injEq, Except.error.injEq]
    | ok read =>
      show checkColor _ _ _ = _ ↔ _
      simp [checkColor_ne_overflow]

/-! ### Both readers -/

/-- An integer is read from the spellings that are meant for it and from those in which its digits
have a sign of their own, which are different spellings. A color is read from six or eight
hexadecimal digits behind a number sign, or with a plus sign for the first of them, and from an
integer of 32 bits. Nothing else is read. Reading an integer has no error, and stops just where the
least integer is negated; reading a color stops there too. -/
theorem readInteger?_and_readColor_iff (field : String) (s : List Char) (v : ℤ) :
    (readInteger? s = .ok (some v) ↔ IntegerText (trim s) v ∨ OversignedText (trim s) v) ∧
      (∀ t w, ¬(IntegerText t v ∧ OversignedText t w)) ∧
      (∀ e, readInteger? s = .error e ↔ NegatesLeast s ∧ e = .overflow .negation (2 ^ 63)) ∧
      (readColor field s = .ok v ↔
        (∃ digits, trim s = '#' :: digits ∧
          (ColorDigits [] digits v ∨ ColorDigits ['+'] digits v)) ∨
          (trim s).head? ≠ some '#' ∧ readInteger? s = .ok (some v) ∧ 0 ≤ v ∧ v < 2 ^ 32) ∧
      (∀ operation result, readColor field s = .error (.overflow operation result) ↔
        NegatesLeast s ∧ operation = .negation ∧ result = 2 ^ 63) ∧
      ∀ digits w, ¬(ColorDigits [] digits v ∧ ColorDigits ['+'] digits w) := by
  refine ⟨readInteger?_iff, fun _ _ h => h.1.not_oversignedText h.2,
    fun _ => readInteger?_eq_error_iff, readColor_iff, fun operation result => ?_,
    fun _ _ h => h.1.not_plus h.2⟩
  rw [readColor_eq_overflow_iff, readInteger?_eq_error_iff, CommandError.overflow.injEq]

/-- Two minus signs are read as none, and a plus sign as the first digit of a color. -/
theorem signs_misread :
    (¬∀ (s : List Char) (v : ℤ), readInteger? s = .ok (some v) ↔ IntegerText (trim s) v) ∧
      ¬∀ (field : String) (s digits : List Char) (v : ℤ), trim s = '#' :: digits →
        (readColor field s = .ok v ↔ ColorDigits [] digits v) := by
  constructor
  · intro h
    have hread : readInteger? "--5".toList = .ok (some 5) := by decide
    have hdigits : Denotes 10 ['5'] 5 := (readNumeral_eq_some_iff (by decide)).mp (by decide)
    have hoversigned : OversignedText "--5".toList 5 := .minusMinus (.decimal hdigits) (by decide)
    exact ((h _ _).mp hread).not_oversignedText hoversigned
  · intro h
    have hread : readColor "c" "#+12345".toList = .ok 0xff012345 := by decide
    have hdigits : Denotes 16 "12345".toList 0x12345 :=
      (readNumeral_eq_some_iff (by decide)).mp (by decide)
    have hplus : ColorDigits ['+'] "+12345".toList (0xff000000 + (0x12345 : ℕ)) :=
      .rgb hdigits (by decide)
    exact ((h "c" _ "+12345".toList _ (by decide)).mp hread).not_plus hplus

end WireSchema
