import WireSchema.Json.Basic

/-!
# Objects of strings

Reading a JSON text whose value is an object with strings for values. Blanks may stand between
tokens. In strings every escape of JSON is read, pairs of surrogates included; a lone surrogate, an
unescaped control or any other kind of value makes the text unreadable.
-/

namespace WireSchema.Json

open WireSchema.Text

/-- Whether a character may stand between tokens. -/
def isSpace (c : Char) : Bool :=
  c == ' ' || c == '\n' || c == '\t' || c == '\r'

/-- The text without blanks at its start. -/
def skipSpaces (s : List Char) : List Char :=
  s.dropWhile isSpace

theorem length_skipSpaces_le (s : List Char) : (skipSpaces s).length ≤ s.length :=
  (List.dropWhile_sublist _).length_le

/-! ### Strings -/

/-- The character of a simple escape. -/
def simpleEscape? : Char → Option Char
  | '"' => some '"'
  | '\\' => some '\\'
  | '/' => some '/'
  | 'b' => some '\u0008'
  | 'f' => some '\u000c'
  | 'n' => some '\n'
  | 'r' => some '\r'
  | 't' => some '\t'
  | _ => none

/-- The character of one or two 16-bit units, and the text after the units that it takes. A unit of
the high surrogates must be followed by the escape of a low one. -/
def unitsEscape? (unit : Nat) (rest : List Char) : Option (Char × List Char) :=
  if unit < 0xd800 ∨ 0xe000 ≤ unit then some (Char.ofNat unit, rest)
  else if 0xdc00 ≤ unit then none
  else
    match rest with
    | '\\' :: 'u' :: a :: b :: c :: d :: rest =>
      match readNumeral 16 [a, b, c, d] with
      | some low =>
        if 0xdc00 ≤ low ∧ low < 0xe000 then
          some (Char.ofNat (0x10000 + (unit - 0xd800) * 0x400 + (low - 0xdc00)), rest)
        else none
      | none => none
    | _ => none

/-- The character of an escape after its backslash, and what follows. -/
def escape? : List Char → Option (Char × List Char)
  | 'u' :: a :: b :: c :: d :: rest => (readNumeral 16 [a, b, c, d]).bind (unitsEscape? · rest)
  | c :: rest => (simpleEscape? c).map (·, rest)
  | [] => none

theorem length_of_unitsEscape? {unit : Nat} {s rest : List Char} {c : Char}
    (h : unitsEscape? unit s = some (c, rest)) : rest.length ≤ s.length := by
  unfold unitsEscape? at h
  split at h
  · simp only [Option.some.injEq, Prod.mk.injEq] at h
    exact Nat.le_of_eq (congrArg List.length h.2.symm)
  · split at h
    · simp at h
    · split at h
      · split at h
        · split at h
          · simp only [Option.some.injEq, Prod.mk.injEq] at h
            rw [← h.2]
            simp only [List.length_cons]
            omega
          · simp at h
        · simp at h
      · simp at h

theorem length_of_escape? {s rest : List Char} {c : Char} (h : escape? s = some (c, rest)) :
    rest.length < s.length := by
  unfold escape? at h
  split at h
  · obtain ⟨unit, _, hu⟩ := Option.bind_eq_some_iff.1 h
    have := length_of_unitsEscape? hu
    simp only [List.length_cons]
    omega
  · obtain ⟨d, _, hd⟩ := Option.map_eq_some_iff.1 h
    simp only [Prod.mk.injEq] at hd
    rw [← hd.2]
    simp
  · simp at h

/-- The characters of a string after its opening quote, and what follows its closing quote; `done`
holds the characters before, reversed. -/
def readStringFrom? (done : List Char) : List Char → Option (List Char × List Char)
  | [] => none
  | c :: rest =>
    if c = '"' then some (done.reverse, rest)
    else if c = '\\' then
      match _h : escape? rest with
      | some (d, tail) => readStringFrom? (d :: done) tail
      | none => none
    else if c.toNat < 0x20 then none
    else readStringFrom? (c :: done) rest
  termination_by s => s.length
  decreasing_by
    · have := length_of_escape? _h
      simp only [List.length_cons]
      omega
    · simp

/-- A string at the front of a text, after blanks, and what follows. -/
def readString? (s : List Char) : Option (String × List Char) :=
  match skipSpaces s with
  | '"' :: rest => (readStringFrom? [] rest).map fun r => (String.ofList r.1, r.2)
  | _ => none

theorem length_of_readStringFrom? {done s out rest : List Char}
    (h : readStringFrom? done s = some (out, rest)) : rest.length < s.length := by
  fun_induction readStringFrom? done s with
  | case1 => simp at h
  | case2 done tail =>
    simp only [Option.some.injEq, Prod.mk.injEq] at h
    simp [h.2]
  | case3 done tail d after hd _ ih =>
    have hlt := ih h
    have := length_of_escape? hd
    simp only [List.length_cons]
    omega
  | case4 => simp at h
  | case5 => simp at h
  | case6 done c tail _ _ _ ih =>
    have := ih h
    simp only [List.length_cons]
    omega

theorem length_of_readString? {s rest : List Char} {out : String}
    (h : readString? s = some (out, rest)) : rest.length < s.length := by
  unfold readString? at h
  split at h
  · rename_i tail htail
    obtain ⟨r, hr, he⟩ := Option.map_eq_some_iff.1 h
    have h1 := length_of_readStringFrom? hr
    have h2 := length_skipSpaces_le s
    rw [htail] at h2
    simp only [Prod.mk.injEq] at he
    rw [← he.2]
    simp only [List.length_cons] at h2
    omega
  · simp at h

/-! ### Members -/

/-- A member at the front of a text, and what follows it and blanks. -/
def readMember? (s : List Char) : Option ((String × String) × List Char) :=
  match readString? s with
  | none => none
  | some (key, rest) =>
    match skipSpaces rest with
    | ':' :: rest =>
      match readString? rest with
      | some (value, rest) => some ((key, value), skipSpaces rest)
      | none => none
    | _ => none

theorem length_of_readMember? {s rest : List Char} {member : String × String}
    (h : readMember? s = some (member, rest)) : rest.length < s.length := by
  unfold readMember? at h
  split at h
  · simp at h
  · rename_i key after hkey
    split at h
    · rename_i tail htail
      split at h
      · rename_i value last hvalue
        simp only [Option.some.injEq, Prod.mk.injEq] at h
        have h1 := length_of_readString? hkey
        have h2 := length_skipSpaces_le after
        have h3 := length_of_readString? hvalue
        have h4 := length_skipSpaces_le last
        rw [htail, List.length_cons] at h2
        rw [← h.2]
        omega
      · simp at h
    · simp at h

/-- The members up to the end of an object, which must end the text; `done` holds the members
before, reversed. -/
def readMembers? (done : List (String × String)) (s : List Char) :
    Option (List (String × String)) :=
  match _h : readMember? s with
  | some (member, ',' :: rest) => readMembers? (member :: done) rest
  | some (member, '}' :: rest) =>
    if (skipSpaces rest).isEmpty then some (member :: done).reverse else none
  | _ => none
  termination_by s.length
  decreasing_by
    have := length_of_readMember? _h
    simp only [List.length_cons] at this
    omega

/-- The members of a text that is an object of strings, in order. -/
def readStringMap? (s : List Char) : Option (List (String × String)) :=
  match skipSpaces s with
  | '{' :: rest =>
    match skipSpaces rest with
    | '}' :: rest => if (skipSpaces rest).isEmpty then some [] else none
    | rest => readMembers? [] rest
  | _ => none

end WireSchema.Json
