import WireSchema.Text.CharTable

/-!
# Lower case

The lower-case form of a text. Most characters have a form of their own (`lowerChar`); capital I
with dot becomes two characters; capital sigma becomes the final form at the end of a word and the
ordinary form elsewhere.
-/

namespace WireSchema.Text

open CharTable

/-- The lower-case form of one character, sigma at a word's end apart. -/
def lowerChar (c : Char) : List Char :=
  let n := c.toNat
  if n < 0x80 then [c.toLower]
  else if n = 0x130 then ['i', '\u0307']
  else
    let covers (r : LowerCaseRange) : Bool :=
      r.first ≤ n && n ≤ r.last && (n - r.first) % r.step == 0
    match lowerCaseRanges.find? covers with
    | some r => [Char.ofNat (n + r.offset).toNat]
    | none => [c]

/-- Whether the first character that is not case-ignorable is cased. -/
def meetsCased (s : List Char) : Bool :=
  match s.dropWhile (contains caseIgnorable) with
  | [] => false
  | c :: _ => contains cased c

/-- The loop of `lowerCase`; `before` holds the characters passed, `out` their forms, both
reversed. -/
def lowerCaseFrom (before out : List Char) : List Char → List Char
  | [] => out.reverse
  | c :: rest =>
    let forms :=
      if c = 'Σ' then
        if meetsCased before && !meetsCased rest then ['ς'] else ['σ']
      else lowerChar c
    lowerCaseFrom (c :: before) (forms.reverse ++ out) rest

/-- The lower-case form of a text. -/
def lowerCase (s : List Char) : List Char :=
  lowerCaseFrom [] [] s

end WireSchema.Text
