/-!
# Positions in a YAML text

The characters that are still to be read, with their position: indentation depends on columns, and
how far a mapping key may reach depends on lines and on the number of characters.
-/

namespace WireSchema.Yaml

/-! ### Character classes -/

/-- Line breaks: carriage return, line feed, next line, line and paragraph separator. -/
def isBreak (c : Char) : Bool :=
  c == '\r' || c == '\n' || c == '\u0085' || c == '\u2028' || c == '\u2029'

/-- Spaces and tabs. -/
def isBlank (c : Char) : Bool :=
  c == ' ' || c == '\t'

/-- The characters of anchors and of tag handles. -/
def isWordChar (c : Char) : Bool :=
  c.isAlphanum || c == '-' || c == '_'

/-- The characters that a document may contain. -/
def isAllowed (c : Char) : Bool :=
  let n := c.toNat
  n == 0x09 || n == 0x0a || n == 0x0d || (0x20 ≤ n && n ≤ 0x7e) || n == 0x85 ||
    (0xa0 ≤ n && n ≤ 0xfffd) || 0x10000 ≤ n

/-- Whether a text starts with a character of a class. -/
def startsWith (p : Char → Bool) : List Char → Bool
  | c :: _ => p c
  | [] => false

/-- Whether a text is at its end or at a line break. -/
def atLineEnd : List Char → Bool
  | c :: _ => isBreak c
  | [] => true

/-- Whether a text is at its end, at a line break or at a blank. -/
def atWordEnd : List Char → Bool
  | c :: _ => isBreak c || isBlank c
  | [] => true

/-! ### Cursors -/

/-- The rest of a text and its position, counted in characters, lines and columns. The length of the
whole text is kept with it. -/
structure Cursor where
  rest : List Char
  length : Nat
  index : Nat := 0
  line : Nat := 0
  column : Nat := 0

namespace Cursor

/-- The start of a text. -/
def start (s : List Char) : Cursor :=
  { rest := s, length := s.length }

/-- A bound on the rounds of a loop that takes at least one character in each. -/
def bound (c : Cursor) : Nat :=
  c.length + 1

/-- The cursor after `n` characters, none of them a line break. -/
def skip (c : Cursor) (n : Nat) : Cursor :=
  { c with rest := c.rest.drop n, index := c.index + n, column := c.column + n }

/-- The longest run of characters of a class, none of them a line break, and the cursor after it. -/
def span (p : Char → Bool) (c : Cursor) : List Char × Cursor :=
  let (run, rest) := c.rest.span p
  (run, { c with rest := rest, index := c.index + run.length, column := c.column + run.length })

/-- The cursor after a run of characters of a class. -/
def skipWhile (p : Char → Bool) (c : Cursor) : Cursor :=
  (c.span p).2

/-- The cursor at the end of the line. -/
def skipToLineEnd (c : Cursor) : Cursor :=
  c.skipWhile fun d => !isBreak d

/-- The line break at the cursor as it counts in a scalar, and the cursor behind it: the separators
of lines and paragraphs stay, any other break is a line feed. -/
def lineBreak (c : Cursor) : List Char × Cursor :=
  let next (n : Nat) : Cursor :=
    { c with rest := c.rest.drop n, index := c.index + n, line := c.line + 1, column := 0 }
  match c.rest with
  | '\r' :: '\n' :: _ => (['\n'], next 2)
  | d :: _ =>
    if d = '\u2028' ∨ d = '\u2029' then ([d], next 1)
    else if isBreak d then (['\n'], next 1)
    else ([], c)
  | [] => ([], c)

/-- Whether a document marker, three equal characters and the end of a word, starts a line here. -/
def atDocumentMarker (c : Cursor) : Bool :=
  c.column == 0 &&
    match c.rest with
    | '-' :: '-' :: '-' :: rest => atWordEnd rest
    | '.' :: '.' :: '.' :: rest => atWordEnd rest
    | _ => false

end Cursor

end WireSchema.Yaml
