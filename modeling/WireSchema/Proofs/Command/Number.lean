import Mathlib
import WireSchema.Command.Number
import WireSchema.Proofs.Binary64.Scaling
import WireSchema.Proofs.Binary64.Text
import WireSchema.Proofs.Results
import WireSchema.Proofs.Text.Split
import WireSchema.Proofs.Wire.Scalar

/-!
# Reading written numbers

A number is read back as it was written, in every format: in decimal, as the bit pattern of its
width in hexadecimal, and divided by a divisor. So are colors, and the numbers of records.

* `IntType.natAbs_lt`, `ScalarKind.natAbs_lt` — the numbers of every type have 32 bits;
* `bit64_of_lt`, `IntType.ofRead_eq`, `ScalarKind.fits_eq` — operations that stay in 64 bits;
* `readInteger?_decimal`, `readInteger?_hex` — decimal and hexadecimal text;
* `IntType.read_render` — a number of an integer type;
* `readColor_renderColor` — a color;
* `Column.scaleUp_scaleDown` — a number of a record;
* `Divisor.scaling_exact` — how the numbers with a divisor come back, from the rounding of their
  quotients and products alone.
-/

namespace WireSchema

open WireSchema.Text

/-! ### Ranges -/

theorem IntType.natAbs_lt {type : IntType} {v : ℤ} (h : type.contains v = true) :
    v.natAbs < 0x100000000 := by
  cases type <;>
    simp only [contains, least, greatest, isSigned, width, ByteWidth.capacity, Bool.and_eq_true,
      decide_eq_true_eq, reduceCtorEq, if_true, if_false, Bool.false_eq_true] at h <;> omega

theorem ScalarKind.natAbs_lt {kind : ScalarKind} {v : ℤ} (h : kind.holds v = true) :
    v.natAbs < 0x100000000 := by
  cases kind with
  | integer type format => exact IntType.natAbs_lt h
  | flags names width =>
    rw [holds_flags_iff] at h
    have hcapacity := width.capacity_le
    omega

theorem clamp64_eq {v : ℤ} (h : v.natAbs < 0x100000000) : clamp64 v = v := by
  unfold clamp64
  omega

/-! ### Operations on 64-bit integers -/

theorem checked64_of_bounds {v : ℤ} (operation : Operation)
    (h : -0x8000000000000000 ≤ v ∧ v < 0x8000000000000000) :
    checked64 operation v = .ok v :=
  if_pos h

theorem checked64_eq_ok {operation : Operation} {v w : ℤ} :
    checked64 operation v = .ok w ↔
      (-0x8000000000000000 ≤ v ∧ v < 0x8000000000000000) ∧ v = w :=
  ite_eq_ok

theorem bit64_of_lt {i : ℕ} (h : i < 63) : bit64 i = .ok ((1 <<< i : ℕ) : ℤ) := by
  have hlt : 1 <<< i < 0x8000000000000000 := by
    rw [Nat.one_shiftLeft]
    exact Nat.pow_lt_pow_right (by decide) h
  refine checked64_of_bounds .shift ?_
  generalize 1 <<< i = n at hlt
  omega

/-- The bounds of all widths are in range. -/
theorem bit64_width (width : ByteWidth) : bit64 (8 * width.bytes) = .ok (width.capacity : ℤ) := by
  cases width <;> rfl

/-- A bit pattern is brought below zero without an overflow. -/
theorem IntType.ofRead_eq (type : IntType) (isHex : Bool) (v : ℤ) :
    type.ofRead isHex v
      = .ok (if isHex ∧ type.isSigned ∧ 0 ≤ v ∧ v < type.width.capacity ∧ !type.contains v then
          v - type.width.capacity
        else v) := by
  unfold ofRead
  split
  · rename_i hpattern
    have hcapacity := type.width.capacity_le
    rw [bit64_width]
    exact checked64_of_bounds .subtraction ⟨by omega, by omega⟩
  · rfl

theorem ScalarKind.fits_eq (kind : ScalarKind) (v : ℤ) : kind.fits v = .ok (kind.holds v) := by
  cases kind with
  | integer type format => rfl
  | flags names width =>
    rw [fits, bit64_width]
    rfl

/-! ### Integers -/

/-- Digits, and the marks before them, have no blanks at their ends. -/
theorem trim_marked {marks digits : List Char} (hmarks : ∀ c ∈ marks, isBlank c = false)
    (h : ∀ c ∈ digits, IsDigitChar c) : trim (marks ++ digits) = marks ++ digits := by
  refine trim_of_not_blank fun c hc => ?_
  rcases List.mem_append.mp hc with hc | hc
  · exact hmarks c hc
  · exact (h c hc).not_isBlank

theorem trim_of_isDigitChar {s : List Char} (h : ∀ c ∈ s, IsDigitChar c) : trim s = s :=
  @trim_marked [] s (fun _ hc => absurd hc List.not_mem_nil) h

theorem trim_negative (n : ℕ) : trim ('-' :: numeral 10 n) = '-' :: numeral 10 n := by
  refine @trim_marked ['-'] _ ?_ fun c hc => isDigitChar_of_mem_numeral (by decide) (by decide) hc
  simp [isBlank]

/-- Digits are no hexadecimal number without its mark. -/
theorem not_mark_of_isDigitChar {s : List Char} (h : ∀ c ∈ s, IsDigitChar c) :
    (∀ rest, s ≠ '0' :: 'x' :: rest) ∧ ∀ rest, s ≠ '0' :: 'X' :: rest := by
  have hmark : ∀ c ∈ s, c ≠ 'x' ∧ c ≠ 'X' := fun c hc =>
    IsDigitChar.elim (P := fun c => c ≠ 'x' ∧ c ≠ 'X') (by decide) (h c hc)
  refine ⟨?_, ?_⟩
  · rintro rest rfl
    exact (hmark 'x' (List.mem_cons_of_mem _ List.mem_cons_self)).1 rfl
  · rintro rest rfl
    exact (hmark 'X' (List.mem_cons_of_mem _ List.mem_cons_self)).2 rfl

theorem readMagnitude?_numeral {n : ℕ} (h : n < 0x8000000000000000) :
    readMagnitude? (numeral 10 n) = some (n : ℤ) := by
  have hdigits : ∀ c ∈ numeral 10 n, IsDigitChar c :=
    fun c hc => isDigitChar_of_mem_numeral (by decide) (by decide) hc
  obtain ⟨hlower, hupper⟩ := not_mark_of_isDigitChar hdigits
  unfold readMagnitude?
  split
  · rename_i heq
    exact absurd heq (hlower _)
  · rename_i heq
    exact absurd heq (hupper _)
  · exact readSigned64_of_digits hdigits (readNumeral_numeral (by decide) (by decide) n) h

theorem readInteger?_of_trim {s : List Char} (htrim : trim s = s)
    (hsign : ∀ rest, s ≠ '-' :: rest) : readInteger? s = .ok (readMagnitude? s) := by
  unfold readInteger?
  rw [htrim]
  split
  · exact absurd rfl (hsign _)
  · rfl

theorem isHexadecimal_of_trim {s : List Char} (htrim : trim s = s)
    (hmark : (∀ rest, s ≠ '0' :: 'x' :: rest) ∧ ∀ rest, s ≠ '0' :: 'X' :: rest) :
    isHexadecimal s = false := by
  unfold isHexadecimal
  rw [htrim]
  split
  · exact absurd rfl (hmark.1 _)
  · exact absurd rfl (hmark.2 _)
  · rfl

theorem ne_minus_of_isDigitChar {s : List Char} (h : ∀ c ∈ s, IsDigitChar c) :
    ∀ rest, s ≠ '-' :: rest := by
  rintro rest rfl
  exact (h '-' List.mem_cons_self).ne_sign.1 rfl

theorem readInteger?_numeral {n : ℕ} (h : n < 0x8000000000000000) :
    readInteger? (numeral 10 n) = .ok (some (n : ℤ)) := by
  have hdigits : ∀ c ∈ numeral 10 n, IsDigitChar c :=
    fun c hc => isDigitChar_of_mem_numeral (by decide) (by decide) hc
  rw [readInteger?_of_trim (trim_of_isDigitChar hdigits) (ne_minus_of_isDigitChar hdigits),
    readMagnitude?_numeral h]

/-- A number is read back from decimal. -/
theorem readInteger?_decimal {v : ℤ} (h : v.natAbs < 0x100000000) :
    readInteger? (decimal v) = .ok (some v) := by
  cases v with
  | ofNat n => exact readInteger?_numeral (by simp only [Int.ofNat_eq_natCast] at h; omega)
  | negSucc n =>
    have hnegated : checked64 .negation (-((n + 1 : ℕ) : ℤ)) = .ok (Int.negSucc n) :=
      checked64_of_bounds .negation ⟨by omega, by omega⟩
    rw [decimal, readInteger?, trim_negative]
    simp only [readMagnitude?_numeral (show n + 1 < 0x8000000000000000 by omega), hnegated]
    rfl

theorem isHexadecimal_decimal (v : ℤ) : isHexadecimal (decimal v) = false := by
  cases v with
  | ofNat n =>
    have hdigits : ∀ c ∈ numeral 10 n, IsDigitChar c :=
      fun c hc => isDigitChar_of_mem_numeral (by decide) (by decide) hc
    exact isHexadecimal_of_trim (trim_of_isDigitChar hdigits) (not_mark_of_isDigitChar hdigits)
  | negSucc n =>
    refine isHexadecimal_of_trim (trim_negative (n + 1)) ⟨?_, ?_⟩
    · intro rest h
      exact absurd (List.cons.inj h).1 (by decide)
    · intro rest h
      exact absurd (List.cons.inj h).1 (by decide)

theorem trim_hex (width n : ℕ) :
    trim (['0', 'x'] ++ paddedNumeral 16 width n) = ['0', 'x'] ++ paddedNumeral 16 width n := by
  refine trim_marked ?_ fun c hc => isDigitChar_of_mem_paddedNumeral (by decide) (by decide) hc
  simp [isBlank]

/-- A number is read back from hexadecimal digits behind their mark. -/
theorem readInteger?_hex {width n : ℕ} (h : n < 0x100000000) :
    readInteger? (['0', 'x'] ++ paddedNumeral 16 width n) = .ok (some (n : ℤ)) ∧
      isHexadecimal (['0', 'x'] ++ paddedNumeral 16 width n) = true := by
  have hdigits : ∀ c ∈ paddedNumeral 16 width n, IsDigitChar c :=
    fun c hc => isDigitChar_of_mem_paddedNumeral (by decide) (by decide) hc
  have htrim := trim_hex width n
  have hsign : ∀ rest, ['0', 'x'] ++ paddedNumeral 16 width n ≠ '-' :: rest :=
    fun rest heq => absurd (List.cons.inj heq).1 (by decide)
  refine ⟨?_, ?_⟩
  · rw [readInteger?_of_trim htrim hsign]
    exact congrArg Except.ok (readSigned64_of_digits hdigits
      (readNumeral_paddedNumeral (by decide) (by decide) width n) (by omega))
  · rw [isHexadecimal, htrim]
    rfl

/-! ### Numbers of an integer type -/

/-- The bit pattern of a number stands for it. -/
theorem IntType.ofRead_pattern {type : IntType} {v : ℤ} (h : type.contains v = true) :
    type.ofRead true ((v % type.width.capacity).toNat : ℕ) = .ok v := by
  refine (type.ofRead_eq true _).trans (congrArg Except.ok ?_)
  cases type with
  | i8 | i16 | i32 =>
    simp only [contains, least, greatest, isSigned, width, ByteWidth.capacity,
      Bool.and_eq_true, decide_eq_true_eq, reduceCtorEq, if_true, if_false, true_and,
      Bool.not_eq_true', Bool.and_eq_false_iff, decide_eq_false_iff_not] at h ⊢
    split <;> omega
  | _ =>
    simp only [contains, least, greatest, isSigned, width, ByteWidth.capacity,
      Bool.and_eq_true, decide_eq_true_eq, reduceCtorEq, if_true, if_false, Bool.false_eq_true,
      false_and, and_false] at h ⊢
    omega

theorem IntType.checkRange_eq_ok {type : IntType} {field : String} {s : List Char}
    {number : Option ℤ} {v : ℤ} :
    type.checkRange field s number = .ok v ↔ number = some v ∧ type.contains v = true := by
  cases number with
  | none => simp [checkRange]
  | some w =>
    rw [Option.some.injEq]
    exact check_eq_ok (P := fun number => type.contains number = true)

theorem IntType.read_of_ne_div (type : IntType) {format : Format} (hformat : ∀ d, format ≠ .div d)
    (field : String) (s : List Char) :
    type.read format field s
      = (readInteger? s >>= fun read => type.ofRead? (isHexadecimal s) read >>= fun number =>
          type.checkRange field s number) := by
  cases format with
  | div d => exact absurd rfl (hformat d)
  | _ => rfl

/-- What a number that was read makes of a text is in range. -/
theorem IntType.read_eq_ok {type : IntType} {format : Format} (hformat : ∀ d, format ≠ .div d)
    {field : String} {s : List Char} {n v : ℤ} (hread : readInteger? s = .ok (some n))
    (hnumber : type.ofRead (isHexadecimal s) n = .ok v) (h : type.contains v = true) :
    type.read format field s = .ok v := by
  rw [type.read_of_ne_div hformat, hread]
  show type.ofRead? (isHexadecimal s) (some n) >>= _ = _
  rw [ofRead?, hnumber]
  exact checkRange_eq_ok.mpr ⟨rfl, h⟩

/-- A number scaled down by a divisor is read back. -/
theorem unscale?_divNat {d : Divisor} {v : ℤ} (h : v.natAbs < 0x100000000) :
    unscale? d ((Binary64.ofInt v).divNat d.value) = some v := by
  rw [unscale?, Binary64.nearestInt?_mulNat_divNat h d.pos d.lt, Option.map_some, clamp64_eq h]

theorem trim_positional (x : Binary64) : trim x.positional = x.positional := by
  refine trim_of_not_blank fun c hc => ?_
  refine Binary64.IsNumberChar.elim (P := fun c => isBlank c = false) (by decide) ?_
    (x.positional_chars.2 c hc)
  simp [isBlank]

/-- A number of an integer type is read back from its text. -/
theorem IntType.read_render {type : IntType} {v : ℤ} (h : type.contains v = true) (format : Format)
    (field : String) : type.read format field (type.render format v) = .ok v := by
  have habs := natAbs_lt h
  cases format with
  | plain =>
    have hplain : type.ofRead (isHexadecimal (decimal v)) v = .ok v := by
      rw [isHexadecimal_decimal, ofRead_eq, if_neg fun hc => Bool.false_ne_true hc.1]
    exact read_eq_ok (by simp) (readInteger?_decimal habs) hplain h
  | div d =>
    refine checkRange_eq_ok.mpr ⟨?_, h⟩
    rw [render, trim_positional, Binary64.read?_positional, Option.bind_some, unscale?_divNat habs]
  | hex =>
    have hlt : (v % type.width.capacity).toNat < 0x100000000 := by
      have hcapacity := type.width.capacity_le
      have hpos := type.width.capacity_pos
      have hmod := Int.emod_lt_of_pos v (Int.natCast_pos.mpr hpos)
      omega
    obtain ⟨hread, hmark⟩ := @readInteger?_hex (2 * type.width.bytes) _ hlt
    refine read_eq_ok (by simp) hread ?_ h
    rw [render, hmark, ofRead_pattern h]

theorem IntType.render_ne_nil (type : IntType) (format : Format) (v : ℤ) :
    type.render format v ≠ [] := by
  unfold render
  cases format with
  | plain =>
    cases v with
    | ofNat n => exact Nat.toDigits_ne_nil
    | negSucc n => exact List.cons_ne_nil _ _
  | div d => exact (Binary64.positional_chars _).1
  | hex => exact List.cons_ne_nil _ _

/-! ### Colors -/

/-- Characters of the basic Latin block take one byte each. -/
theorem length_encode_of_ascii {s : List Char} (h : ∀ c ∈ s, c.toNat < 0x80) :
    (Utf8.encode s).length = s.length := by
  induction s with
  | nil => rfl
  | cons c s ih =>
    rw [List.forall_mem_cons] at h
    have hone : (Utf8.encodeChar c).length = 1 := by simp [Utf8.encodeChar, h.1]
    rw [Utf8.encode, List.flatMap_cons, List.length_append, hone, List.length_cons, Nat.add_comm]
    exact congrArg (· + 1) (ih h.2)

/-- What the digits of a color are read as depends on their number. -/
theorem readColorDigits?_paddedNumeral {width n : ℕ} (hwidth : 0 < width) (hn : n < 16 ^ width)
    (hlt : n < 0x100000000) :
    readColorDigits? (paddedNumeral 16 width n)
      = if width = 6 then some ((0xff000000 ||| n : ℕ) : ℤ)
        else if width = 8 then some (n : ℤ) else none := by
  have hdigits : ∀ c ∈ paddedNumeral 16 width n, IsDigitChar c :=
    fun c hc => isDigitChar_of_mem_paddedNumeral (by decide) (by decide) hc
  have hlength : (Utf8.encode (paddedNumeral 16 width n)).length = width := by
    have hascii : ∀ c ∈ paddedNumeral 16 width n, c.toNat < 0x80 := fun c hc =>
      IsDigitChar.elim (P := fun c => c.toNat < 0x80) (by decide) (hdigits c hc)
    rw [length_encode_of_ascii hascii, length_paddedNumeral (by decide) hwidth hn]
  have hread : readBelow 16 0x100000000 (paddedNumeral 16 width n) = some n :=
    readBelow_of_digits (fun c hc => (hdigits c hc).ne_sign.2.1)
      (readNumeral_paddedNumeral (by decide) (by decide) width n) hlt
  simp only [readColorDigits?, hlength, hread, Option.map_some]
  rfl

theorem trim_color {width n : ℕ} :
    trim ('#' :: paddedNumeral 16 width n) = '#' :: paddedNumeral 16 width n := by
  refine @trim_marked ['#'] _ ?_ fun c hc =>
    isDigitChar_of_mem_paddedNumeral (by decide) (by decide) hc
  simp [isBlank]

theorem checkColor_eq_ok {field : String} {s : List Char} {color : Option ℤ} {v : ℤ} :
    checkColor field s color = .ok v ↔ color = some v := by
  cases color with
  | none => simp [checkColor]
  | some w => simp [checkColor]

theorem readColor_of_no_mark {s : List Char} (hmark : ∀ digits, trim s ≠ '#' :: digits)
    (field : String) : readColor field s = (readInteger? (trim s) >>= fun read =>
      checkColor field s (read.filter fun v => 0 ≤ v && v < 0x100000000)) := by
  unfold readColor
  split
  · exact absurd ‹trim s = _› (hmark _)
  · rfl

theorem readColor_of_mark {s digits : List Char} (htrim : trim s = '#' :: digits)
    (field : String) : readColor field s = checkColor field s (readColorDigits? digits) := by
  unfold readColor
  simp only [htrim]

/-- A color is read back from its text, with its alpha value or without. -/
theorem readColor_renderColor {v : ℤ} (h : IntType.argb32.contains v = true) (field : String) :
    readColor field (renderColor v) = .ok v := by
  have hrange : 0 ≤ v ∧ v < 0x100000000 := by
    simp only [IntType.contains, IntType.least, IntType.greatest, IntType.isSigned, IntType.width,
      ByteWidth.capacity, Bool.and_eq_true, decide_eq_true_eq, reduceCtorEq, if_false,
      Bool.false_eq_true] at h
    omega
  obtain ⟨n, rfl⟩ := Int.eq_ofNat_of_zero_le hrange.1
  have hn : n < 0x100000000 := by omega
  have hmod : ((n : ℤ) % 0x100000000).toNat = n := by omega
  unfold renderColor
  simp only [hmod]
  by_cases hopaque : n / 0x1000000 = 0xff
  · have hlow : n % 0x1000000 < 16 ^ 6 := Nat.mod_lt _ (by decide)
    have hor : 0xff000000 ||| n % 0x1000000 = n := by
      have hadd := Nat.two_pow_add_eq_or_of_lt (show n % 0x1000000 < 2 ^ 24 from hlow) 0xff
      rw [show 0xff000000 = 2 ^ 24 * 0xff from rfl, ← hadd]
      omega
    have hdigits := readColorDigits?_paddedNumeral (by decide) hlow
      (Nat.lt_of_le_of_lt (Nat.mod_le _ _) hn)
    rw [if_pos rfl, hor] at hdigits
    rw [if_pos hopaque, readColor_of_mark trim_color, hdigits]
    rfl
  · have hdigits := @readColorDigits?_paddedNumeral 8 n (by decide) hn hn
    rw [if_neg (by decide), if_pos rfl] at hdigits
    rw [if_neg hopaque, readColor_of_mark trim_color, hdigits]
    rfl

theorem renderColor_ne_nil (v : ℤ) : renderColor v ≠ [] := by
  unfold renderColor
  simp only
  split
  · exact List.cons_ne_nil _ _
  · exact List.cons_ne_nil _ _

/-! ### Numbers of records -/

theorem Column.scaleUp_eq_ok {c : Column} {x : Binary64} {v : ℤ} :
    c.scaleUp x = .ok v ↔ c.unscaled? x = some v ∧ c.kind.holds v = true := by
  unfold scaleUp
  cases c.unscaled? x with
  | none => simp
  | some w =>
    simp only [ScalarKind.fits_eq, Option.some.injEq]
    exact check_eq_ok (P := fun number => c.kind.holds number = true)

/-- A number of a record is found again. -/
theorem Column.scaleUp_scaleDown {c : Column} {v : ℤ} (h : c.kind.holds v = true) :
    c.scaleUp (c.kind.format.scaleDown v) = .ok v := by
  have habs := ScalarKind.natAbs_lt h
  have hint : (Binary64.ofInt v).nearestInt?.map clamp64 = some v := by
    rw [Binary64.nearestInt?_ofInt (by omega), Option.map_some, clamp64_eq habs]
  refine scaleUp_eq_ok.mpr ⟨?_, h⟩
  unfold unscaled? Format.scaleDown
  cases c.kind.format with
  | plain => exact hint
  | hex => exact hint
  | div d => exact unscale?_divNat habs

/-! ### Scaled numbers -/

/-- An integer of 32 bits, signed or not, comes back exactly when it is divided by a divisor and
multiplied by it again. This follows from the rounding to 53 significant bits alone, which is how
quotients and products are computed here. So fields and columns with a divisor keep every number of
their type. -/
theorem Divisor.scaling_exact (d : Divisor) {v : ℤ} (hlo : -0x80000000 ≤ v)
    (hhi : v < 0x100000000) :
    (∀ q r, Binary64.RoundsTo (v / d.value) q → Binary64.RoundsTo (q * d.value) r →
        Binary64.halfAway r = v) ∧
      (∃ q r, ((Binary64.ofInt v).divNat d.value).value? = some q ∧
        Binary64.RoundsTo (v / d.value) q ∧
        (((Binary64.ofInt v).divNat d.value).mulNat d.value).value? = some r ∧
        Binary64.RoundsTo (q * d.value) r) ∧
      (∀ (type : IntType) (field : String), type.contains v = true →
        type.read (.div d) field (type.render (.div d) v) = .ok v) ∧
      ∀ c : Column, c.kind.format = .div d → c.kind.holds v = true →
        c.scaleUp ((Format.div d).scaleDown v) = .ok v := by
  have habs : v.natAbs < 0x100000000 := by omega
  refine ⟨?_, Binary64.exists_roundsTo habs d.pos d.lt, ?_, ?_⟩
  · intro q r hq hr
    exact Binary64.halfAway_of_roundsTo (by omega) d.pos hq hr
  · intro type field h
    exact IntType.read_render h (.div d) field
  · intro c hformat h
    rw [← hformat]
    exact Column.scaleUp_scaleDown h

/-- The largest integer, divided by a divisor that leaves a remainder. -/
theorem Divisor.scaling_exact_sevenths :
    -0x80000000 ≤ (0xffffffff : ℤ) ∧ (0xffffffff : ℤ) < 0x100000000 ∧
      (∀ q r, Binary64.RoundsTo ((0xffffffff : ℤ) / (7 : ℕ)) q →
        Binary64.RoundsTo (q * (7 : ℕ)) r → Binary64.halfAway r = 0xffffffff) ∧
      IntType.u32.read (.div ⟨7, by decide, by decide⟩) "x"
        (IntType.u32.render (.div ⟨7, by decide, by decide⟩) 0xffffffff) = .ok 0xffffffff ∧
      Column.scaleUp ⟨"x", .integer .u32 (.div ⟨7, by decide, by decide⟩)⟩
        ((Format.div ⟨7, by decide, by decide⟩).scaleDown 0xffffffff) = .ok 0xffffffff :=
  have h := @Divisor.scaling_exact ⟨7, by decide, by decide⟩ 0xffffffff (by decide) (by decide)
  ⟨by decide, by decide, h.1, h.2.2.1 .u32 "x" (by decide), h.2.2.2 _ rfl (by decide)⟩

/-! ### Lists -/

/-- A list of numbers is read back, if each entry is read as its number. -/
theorem readList_intercalate {type : IntType} {α : Type} {text : α → List Char} {value : α → ℤ}
    (field : String) {list : List α}
    (h : ∀ a ∈ list, IsEntry (text a) ∧ readInteger? (text a) = .ok (some (value a)) ∧
      type.contains (value a) = true) :
    readList field type (List.intercalate [','] (list.map text)) = .ok (list.map value) := by
  have hentries : ∀ s ∈ list.map text, IsEntry s := by
    intro s hs
    obtain ⟨a, ha, rfl⟩ := List.mem_map.mp hs
    exact (h a ha).1
  rw [readList, listEntries_intercalate hentries, mapM_eq_ok, List.forall₂_map_left_iff,
    List.forall₂_map_right_iff, List.forall₂_same]
  intro a ha
  rw [IntType.readEntry, (h a ha).2.1]
  exact IntType.checkRange_eq_ok.mpr ⟨rfl, (h a ha).2.2⟩

end WireSchema
