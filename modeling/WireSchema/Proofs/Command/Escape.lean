import Mathlib
import WireSchema.Command.Line
import WireSchema.Proofs.Text.Numeral
import WireSchema.Proofs.Text.Split

/-!
# Escaped values

Escaping leaves no blank in a value, so that it is one word, and is undone by unescaping, whatever
characters the value has.

* `not_isBlank_of_mem_escape` — an escaped value has no blank;
* `unescape_escape` — unescaping undoes escaping;
* `escape_oneWord_undone` — both together: different values are escaped to different words.
-/

namespace WireSchema

open WireSchema.Text

/-! ### One character -/

/-- The characters that are escaped by a letter. -/
def letterEscapes : List (Char × Char) :=
  [('\\', '\\'), (' ', 's'), ('\t', 't'), ('\r', 'r'), ('\n', 'n')]

/-- A character is escaped by a letter, by its code point, or not at all. -/
theorem escapeChar_cases (c : Char) :
    (∃ letter, (c, letter) ∈ letterEscapes ∧ escapeChar c = ['\\', letter]) ∨
      (isBlank c = true ∧ escapeChar c = ['\\', 'u', '{'] ++ numeral 16 c.toNat ++ ['}']) ∨
        (isBlank c = false ∧ c ≠ '\\' ∧ escapeChar c = [c]) := by
  unfold escapeChar
  split
  · exact Or.inl ⟨'\\', by decide, rfl⟩
  · exact Or.inl ⟨'s', by decide, rfl⟩
  · exact Or.inl ⟨'t', by decide, rfl⟩
  · exact Or.inl ⟨'r', by decide, rfl⟩
  · exact Or.inl ⟨'n', by decide, rfl⟩
  · rename_i hbackslash _ _ _ _
    by_cases hblank : isBlank c = true
    · rw [if_pos hblank]
      exact Or.inr (Or.inl ⟨hblank, rfl⟩)
    · rw [if_neg hblank]
      exact Or.inr (Or.inr ⟨Bool.not_eq_true _ ▸ hblank, hbackslash, rfl⟩)

theorem not_isBlank_of_mem_escapeChar {c b : Char} (h : b ∈ escapeChar c) : isBlank b = false := by
  rcases escapeChar_cases c with ⟨letter, hletter, heq⟩ | ⟨-, heq⟩ | ⟨hblank, -, heq⟩
  · have hall : ∀ entry ∈ letterEscapes, ∀ b ∈ ['\\', entry.2], isBlank b = false := by
      simp [letterEscapes, isBlank]
    rw [heq] at h
    exact hall _ hletter b h
  · have hmark : ∀ b ∈ ['\\', 'u', '{'], isBlank b = false := by
      simp [isBlank]
    rw [heq] at h
    rcases List.mem_append.mp h with h | h
    · rcases List.mem_append.mp h with h | h
      · exact hmark b h
      · exact (isDigitChar_of_mem_numeral (by decide) (by decide) h).not_isBlank
    · rw [List.mem_singleton.mp h]
      decide
  · rw [heq, List.mem_singleton] at h
    rw [h]
    exact hblank

theorem not_isBlank_of_mem_escape {s : List Char} {c : Char} (h : c ∈ escape s) :
    isBlank c = false := by
  obtain ⟨b, -, hc⟩ := List.mem_flatMap.mp h
  exact not_isBlank_of_mem_escapeChar hc

/-! ### Code points -/

/-- Digits up to a closing brace are split off what follows it. -/
theorem codePointDigits_append {a : List Char} (ha : ∀ c ∈ a, IsDigitChar c) {fuel : ℕ}
    (hfuel : a.length ≤ fuel) (digits rest : List Char) :
    codePointDigits digits fuel (a ++ '}' :: rest) = some (digits.reverse ++ a, rest) := by
  induction a generalizing digits fuel with
  | nil =>
    rw [List.nil_append, codePointDigits, List.append_nil]
  | cons c a ih =>
    rw [List.forall_mem_cons] at ha
    obtain ⟨fuel, rfl⟩ := Nat.exists_eq_succ_of_ne_zero (show fuel ≠ 0 by
      rw [List.length_cons] at hfuel
      omega)
    have hdigit : (digitValue c).isSome = true ∧ c ≠ '}' :=
      IsDigitChar.elim (P := fun c => (digitValue c).isSome = true ∧ c ≠ '}') (by decide) ha.1
    rw [List.cons_append, codePointDigits, if_pos hdigit.1,
      ih ha.2 (Nat.le_of_succ_le_succ hfuel), List.reverse_cons, List.append_assoc,
      List.singleton_append]
    exact hdigit.2

theorem charOfCodePoint?_toNat (c : Char) : charOfCodePoint? c.toNat = some c := by
  have hvalid : c.toNat.isValidChar := c.valid
  rw [charOfCodePoint?, dif_pos hvalid]
  exact congrArg some (Char.ext (UInt32.toNat_inj.mp rfl))

/-- A character that is written by its code point is read back. -/
theorem unescapeOne_codePoint (c : Char) (rest : List Char) :
    unescapeOne (['u', '{'] ++ numeral 16 c.toNat ++ '}' :: rest) = .ok (c, rest) := by
  have hlength : (numeral 16 c.toNat).length ≤ 6 := by
    rw [numeral, Nat.length_toDigits_le_iff (by decide) (by decide)]
    have hvalid := c.valid
    have hlt : c.toNat < 0x110000 := by
      unfold UInt32.isValidChar Nat.isValidChar at hvalid
      show c.val.toNat < _
      omega
    exact Nat.lt_of_lt_of_le hlt (by decide)
  have hdigits := codePointDigits_append
    (fun b hb => isDigitChar_of_mem_numeral (by decide) (by decide) hb) hlength [] rest
  rw [List.reverse_nil, List.nil_append] at hdigits
  show unescapeCodePoint ('{' :: (numeral 16 c.toNat ++ '}' :: rest)) = _
  rw [unescapeCodePoint, hdigits]
  simp only [readNumeral_numeral (show 1 < 16 by decide) (Nat.le_refl 16), Option.bind_some,
    charOfCodePoint?_toNat]

/-! ### Values -/

/-- One escaped character is read back. -/
theorem unescapeFrom_escapeChar (c : Char) (done rest : List Char) :
    unescapeFrom done (escapeChar c ++ rest) = unescapeFrom (c :: done) rest := by
  rcases escapeChar_cases c with ⟨letter, hletter, heq⟩ | ⟨-, heq⟩ | ⟨-, hne, heq⟩
  · have hall : ∀ entry ∈ letterEscapes, ∀ rest : List Char,
        unescapeOne (entry.2 :: rest) = .ok (entry.1, rest) := by
      simp only [letterEscapes, List.forall_mem_cons]
      refine ⟨fun _ => rfl, fun _ => rfl, fun _ => rfl, fun _ => rfl, fun _ => rfl, ?_⟩
      exact fun entry hentry => absurd hentry List.not_mem_nil
    have hone := hall _ hletter rest
    rw [heq, List.cons_append, List.cons_append, List.nil_append, unescapeFrom, if_pos rfl]
    split
    · rename_i h
      rw [hone] at h
      cases h
      rfl
    · rename_i h
      rw [hone] at h
      cases h
  · have hone := unescapeOne_codePoint c rest
    rw [heq]
    simp only [List.cons_append, List.nil_append, List.append_assoc] at hone ⊢
    rw [unescapeFrom, if_pos rfl]
    split
    · rename_i h
      rw [hone] at h
      cases h
      rfl
    · rename_i h
      rw [hone] at h
      cases h
  · rw [heq, List.singleton_append, unescapeFrom, if_neg hne]

theorem unescapeFrom_escape (s done : List Char) :
    unescapeFrom done (escape s) = .ok (done.reverse ++ s) := by
  induction s generalizing done with
  | nil =>
    show unescapeFrom done [] = _
    rw [unescapeFrom, List.append_nil]
  | cons c s ih =>
    show unescapeFrom done (escapeChar c ++ escape s) = _
    rw [unescapeFrom_escapeChar, ih, List.reverse_cons, List.append_assoc, List.singleton_append]

/-- Unescaping undoes escaping. -/
theorem unescape_escape (s : List Char) : unescape (escape s) = .ok s :=
  unescapeFrom_escape s []

/-! ### Words -/

theorem escapeChar_ne_nil (c : Char) : escapeChar c ≠ [] := by
  rcases escapeChar_cases c with ⟨letter, -, heq⟩ | ⟨-, heq⟩ | ⟨-, -, heq⟩
  · rw [heq]
    exact List.cons_ne_nil _ _
  · rw [heq]
    exact List.append_ne_nil_of_right_ne_nil _ (List.cons_ne_nil _ _)
  · rw [heq]
    exact List.cons_ne_nil _ _

/-- Only the empty value is escaped to nothing. -/
theorem escape_eq_nil_iff {s : List Char} : escape s = [] ↔ s = [] := by
  rw [escape, List.flatMap_eq_nil_iff]
  constructor
  · intro h
    cases s with
    | nil => rfl
    | cons c s => exact absurd (h c List.mem_cons_self) (escapeChar_ne_nil c)
  · rintro rfl c hc
    exact absurd hc List.not_mem_nil

theorem isWord_escape {s : List Char} (h : s ≠ []) : IsWord (escape s) :=
  ⟨fun hempty => h (escape_eq_nil_iff.mp hempty), fun _ hc => not_isBlank_of_mem_escape hc⟩

theorem escape_injective : Function.Injective escape := by
  intro s t h
  have hread : (.ok s : Except LineFault (List Char)) = .ok t := by
    rw [← unescape_escape s, h, unescape_escape t]
  exact Except.ok.inj hread

/-- An escaped value has no blank, is one word unless the value is empty, and gives the value back.
So different values are escaped differently. -/
theorem escape_oneWord_undone :
    (∀ s : List Char, (∀ c ∈ escape s, isBlank c = false) ∧
      words (escape s) = (if s = [] then [] else [escape s]) ∧
      unescape (escape s) = .ok s ∧ (escape s = [] ↔ s = [])) ∧
      Function.Injective escape := by
  refine ⟨fun s => ⟨fun _ hc => not_isBlank_of_mem_escape hc, ?_, unescape_escape s,
    escape_eq_nil_iff⟩, escape_injective⟩
  split
  · rename_i hempty
    rw [hempty]
    rfl
  · rename_i hne
    exact words_of_isWord (isWord_escape hne)

end WireSchema
