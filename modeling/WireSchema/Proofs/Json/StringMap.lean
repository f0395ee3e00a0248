import Mathlib
import WireSchema.Json.StringMap
import WireSchema.Proofs.Text.Numeral

/-!
# Objects of strings are read back

The compact form of an object whose values are strings is read back, member by member, whatever
characters keys and values have. A character of a string is written as itself, as an escape of one
letter, or by its code.

* `readString?_renderString` — a string, whatever follows it;
* `readMembers?_renderMembers` — the members of an object, in order;
* `readStringMap?_render` — the object.
-/

namespace WireSchema.Json

open WireSchema.Text

/-! ### Strings -/

/-- A character is written by a letter, by its code, or as itself. -/
theorem stringChar_cases (c : Char) :
    (∃ letter, simpleEscape? letter = some c ∧ letter ≠ 'u' ∧ stringChar c = ['\\', letter]) ∨
      (c.toNat < 0x20 ∧ stringChar c = ['\\', 'u'] ++ paddedNumeral 16 4 c.toNat) ∨
        (¬c.toNat < 0x20 ∧ c ≠ '"' ∧ c ≠ '\\' ∧ stringChar c = [c]) := by
  unfold stringChar
  split
  · exact Or.inl ⟨'"', rfl, by decide, rfl⟩
  · exact Or.inl ⟨'\\', rfl, by decide, rfl⟩
  · exact Or.inl ⟨'b', rfl, by decide, rfl⟩
  · exact Or.inl ⟨'t', rfl, by decide, rfl⟩
  · exact Or.inl ⟨'n', rfl, by decide, rfl⟩
  · exact Or.inl ⟨'f', rfl, by decide, rfl⟩
  · exact Or.inl ⟨'r', rfl, by decide, rfl⟩
  · rename_i hquote hbackslash _ _ _ _ _
    by_cases hcontrol : c.toNat < 0x20
    · rw [if_pos hcontrol]
      exact Or.inr (Or.inl ⟨hcontrol, rfl⟩)
    · rw [if_neg hcontrol]
      exact Or.inr (Or.inr ⟨hcontrol, hquote, hbackslash, rfl⟩)

theorem escape?_letter {letter c : Char} (hletter : simpleEscape? letter = some c)
    (hne : letter ≠ 'u') (rest : List Char) : escape? (letter :: rest) = some (c, rest) := by
  unfold escape?
  split
  · rename_i heq
    exact absurd (List.cons.inj heq).1 hne
  · rename_i heq
    obtain ⟨rfl, rfl⟩ := List.cons.inj heq
    rw [hletter]
    rfl
  · rename_i heq
    cases heq

/-- A code of four digits that is no surrogate is the character with it. -/
theorem escape?_code {c : Char} (hcontrol : c.toNat < 0x20) (rest : List Char) :
    escape? ('u' :: (paddedNumeral 16 4 c.toNat ++ rest)) = some (c, rest) := by
  have hlength : (paddedNumeral 16 4 c.toNat).length = 4 :=
    length_paddedNumeral (by decide) (by decide) (Nat.lt_trans hcontrol (by decide))
  have hread : readNumeral 16 (paddedNumeral 16 4 c.toNat) = some c.toNat :=
    readNumeral_paddedNumeral (by decide) (by decide) 4 c.toNat
  obtain ⟨d₁, d₂, d₃, d₄, hdigits⟩ := List.length_eq_four.mp hlength
  rw [hdigits] at hread ⊢
  show (readNumeral 16 [d₁, d₂, d₃, d₄]).bind (unitsEscape? · rest) = _
  rw [hread]
  show unitsEscape? c.toNat rest = _
  unfold unitsEscape?
  rw [if_pos (Or.inl (Nat.lt_trans hcontrol (by decide))), Char.ofNat_toNat]

theorem readStringFrom?_escape {done s tail : List Char} {c : Char}
    (h : escape? s = some (c, tail)) :
    readStringFrom? done ('\\' :: s) = readStringFrom? (c :: done) tail := by
  rw [readStringFrom?, if_neg (by decide), if_pos rfl]
  split
  · rename_i d tail' hescape
    rw [h] at hescape
    cases hescape
    rfl
  · rename_i hescape
    rw [h] at hescape
    cases hescape

/-- One character is read back from what it is written as. -/
theorem readStringFrom?_stringChar (done : List Char) (c : Char) (rest : List Char) :
    readStringFrom? done (stringChar c ++ rest) = readStringFrom? (c :: done) rest := by
  rcases stringChar_cases c with ⟨letter, hletter, hne, heq⟩ | ⟨hcontrol, heq⟩ |
    ⟨hcontrol, hquote, hbackslash, heq⟩
  · rw [heq]
    exact readStringFrom?_escape (escape?_letter hletter hne rest)
  · rw [heq]
    exact readStringFrom?_escape (escape?_code hcontrol rest)
  · rw [heq, List.singleton_append, readStringFrom?, if_neg hquote, if_neg hbackslash,
      if_neg hcontrol]

theorem readStringFrom?_flatMap (done s rest : List Char) :
    readStringFrom? done (s.flatMap stringChar ++ '"' :: rest)
      = some (done.reverse ++ s, rest) := by
  induction s generalizing done with
  | nil =>
    rw [List.flatMap_nil, List.nil_append, readStringFrom?, if_pos rfl, List.append_nil]
  | cons c s ih =>
    rw [List.flatMap_cons, List.append_assoc, readStringFrom?_stringChar, ih, List.reverse_cons,
      List.append_assoc, List.singleton_append]

/-- A string is read back, whatever follows it. -/
theorem readString?_renderString (s : String) (rest : List Char) :
    readString? (renderString s ++ rest) = some (s, rest) := by
  have hquoted : renderString s ++ rest = '"' :: (s.toList.flatMap stringChar ++ '"' :: rest) := by
    rw [renderString, List.cons_append, List.append_assoc, List.singleton_append]
  rw [hquoted]
  show (readStringFrom? [] (s.toList.flatMap stringChar ++ '"' :: rest)).map _ = _
  rw [readStringFrom?_flatMap]
  show some (String.ofList s.toList, rest) = _
  rw [String.ofList_toList]

/-! ### Objects -/

/-- A member is read back. -/
theorem readMember?_render (member : String × String) (rest : List Char) :
    readMember? (renderString member.1 ++ ':' :: (renderString member.2 ++ rest))
      = some (member, skipSpaces rest) := by
  have hcolon : skipSpaces (':' :: (renderString member.2 ++ rest))
      = ':' :: (renderString member.2 ++ rest) := rfl
  simp only [readMember?, readString?_renderString, hcolon]

/-- The members of an object, each a string. -/
def stringMembers (entries : List (String × String)) : List (String × Json) :=
  entries.map fun e => (e.1, .string e.2)

theorem readMembers?_last {done : List (String × String)} {s : List Char}
    {member : String × String} (h : readMember? s = some (member, ['}'])) :
    readMembers? done s = some (member :: done).reverse := by
  rw [readMembers?]
  split
  · rename_i heq
    rw [h] at heq
    cases heq
  · rename_i heq
    rw [h] at heq
    cases heq
    rfl
  · rename_i hneither
    exact absurd h (hneither member [])

theorem readMembers?_comma {done : List (String × String)} {s rest : List Char}
    {member : String × String} (h : readMember? s = some (member, ',' :: rest)) :
    readMembers? done s = readMembers? (member :: done) rest := by
  rw [readMembers?]
  split
  · rename_i heq
    rw [h] at heq
    cases heq
    rfl
  · rename_i heq
    rw [h] at heq
    cases heq
  · rename_i hneither _
    exact absurd h (hneither member rest)

/-- Members are read back up to the end of their object. -/
theorem readMembers?_renderMembers (done : List (String × String)) (member : String × String)
    (entries : List (String × String)) :
    readMembers? done (renderString member.1 ++ ':' ::
        (renderString member.2 ++ renderMembers (stringMembers entries)))
      = some (done.reverse ++ member :: entries) := by
  induction entries generalizing done member with
  | nil =>
    have hmember := readMember?_render member ['}']
    show readMembers? done (renderString member.1 ++ ':' :: (renderString member.2 ++ ['}'])) = _
    rw [readMembers?_last hmember, List.reverse_cons]
  | cons next entries ih =>
    have hrest : renderMembers (stringMembers (next :: entries))
        = ',' :: (renderString next.1 ++ ':' ::
          (renderString next.2 ++ renderMembers (stringMembers entries))) := by
      simp only [stringMembers, List.map_cons, renderMembers, render]
    have hmember := readMember?_render member (renderMembers (stringMembers (next :: entries)))
    rw [hrest] at hmember ⊢
    rw [readMembers?_comma hmember, ih, List.reverse_cons, List.append_assoc, List.singleton_append]

/-- An object of strings is read back. -/
theorem readStringMap?_render (entries : List (String × String)) :
    readStringMap? (object (stringMembers entries)).render = some entries := by
  cases entries with
  | nil => rfl
  | cons member entries =>
    have hobject : (object (stringMembers (member :: entries))).render
        = '{' :: (renderString member.1 ++ ':' ::
          (renderString member.2 ++ renderMembers (stringMembers entries))) := by
      simp only [stringMembers, List.map_cons, render]
    rw [hobject]
    show readMembers? [] (renderString member.1 ++ ':' ::
      (renderString member.2 ++ renderMembers (stringMembers entries))) = _
    rw [readMembers?_renderMembers]
    rfl

end WireSchema.Json
