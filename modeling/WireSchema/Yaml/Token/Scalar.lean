import WireSchema.Text.Numeral
import WireSchema.Yaml.Cursor
import WireSchema.Yaml.Fault
import WireSchema.Yaml.Token.Basic

/-!
# Scalars in a YAML text

Reading a scalar from its first character: plain, in single or double quotes, or as an indented
block. Line breaks inside a scalar are folded: one break becomes a space, and of several the first
is dropped. Every round of a loop takes at least one character, so the length of the whole text
bounds the rounds (`Cursor.bound`).
-/

namespace WireSchema.Yaml

/-- The breaks between two parts of a scalar: a first break, the breaks after it, and the blanks
before the first one, all reversed where they are lists of characters. -/
structure Gap where
  blanks : List Char := []
  firstBreak : List Char := []
  moreBreaks : List Char := []
  hasBreak : Bool := false

namespace Gap

/-- A gap as it counts in a scalar: blanks stay without a break, one line feed becomes a space, and
of several breaks a first line feed is dropped. -/
def folded (g : Gap) : List Char :=
  if !g.hasBreak then g.blanks.reverse
  else if g.firstBreak = ['\n'] then
    if g.moreBreaks.isEmpty then [' '] else g.moreBreaks.reverse
  else g.firstBreak ++ g.moreBreaks.reverse

/-- The gap with one more line break. -/
def addBreak (g : Gap) (lineBreak : List Char) : Gap :=
  if g.hasBreak then { g with moreBreaks := lineBreak.reverse ++ g.moreBreaks }
  else { g with blanks := [], firstBreak := lineBreak, hasBreak := true }

/-- Reads blanks and line breaks. In a block, a tab that is less indented than `indent` after a
break is a fault. -/
def read (indent : Nat) : Nat → Gap → Cursor → Except Fault (Gap × Cursor)
  | 0, g, c => .ok (g, c)
  | fuel + 1, g, c =>
    match c.rest with
    | [] => .ok (g, c)
    | d :: _ =>
      if isBlank d then
        if g.hasBreak then
          if c.column < indent ∧ d = '\t' then .error .tabAsIndentation
          else read indent fuel g (c.skip 1)
        else read indent fuel { g with blanks := d :: g.blanks } (c.skip 1)
      else if isBreak d then
        let (lineBreak, c) := c.lineBreak
        read indent fuel (g.addBreak lineBreak) c
      else .ok (g, c)

end Gap

/-! ### Plain scalars -/

/-- The characters that end a plain scalar inside brackets and braces. -/
def isFlowIndicator (c : Char) : Bool :=
  c == ',' || c == '[' || c == ']' || c == '{' || c == '}'

/-- The characters of a plain scalar up to a gap or its end, added to `run`, which is reversed. A
colon ends the scalar before the end of a word; inside brackets it may not stand directly before an
indicator. -/
def plainRun (inFlow : Bool) (run : List Char) : List Char → Except Fault (List Char)
  | [] => .ok run
  | c :: rest =>
    if isBlank c || isBreak c then .ok run
    else if inFlow && c == ':' && startsWith (fun d => isFlowIndicator d || d == '?') rest then
      .error .ambiguousColon
    else if c == ':' && atWordEnd rest then .ok run
    else if inFlow && isFlowIndicator c then .ok run
    else plainRun inFlow (c :: run) rest

/-- The loop of `readPlain`; `text` holds what has been read, reversed, and `gap` what lies before
the cursor. The result tells whether a line break ends the scalar. -/
def plainFrom (inFlow : Bool) (indent : Nat) :
    Nat → List Char → Gap → Cursor → Except Fault (List Char × Bool × Cursor)
  | 0, text, gap, c => .ok (text, gap.hasBreak, c)
  | fuel + 1, text, gap, c =>
    if c.atDocumentMarker || startsWith (· == '#') c.rest then .ok (text, gap.hasBreak, c)
    else
      match plainRun inFlow [] c.rest with
      | .error e => .error e
      | .ok run =>
        let n := run.length
        let (text, gap) := if n = 0 then (text, gap) else (run ++ (gap.folded.reverse ++ text), {})
        let c := c.skip n
        if !startsWith (fun d => isBlank d || isBreak d) c.rest then .ok (text, gap.hasBreak, c)
        else
          match Gap.read indent (c.bound) gap c with
          | .error e => .error e
          | .ok (gap, c) =>
            if !inFlow && c.column < indent then .ok (text, gap.hasBreak, c)
            else plainFrom inFlow indent fuel text gap c

/-- Reads a plain scalar; in a block its further lines are indented by at least `indent`. -/
def readPlain (inFlow : Bool) (indent : Nat) (c : Cursor) :
    Except Fault (Token × Bool × Cursor) :=
  match plainFrom inFlow indent (c.bound) [] {} c with
  | .ok (text, hasBreak, c) => .ok (.scalar (String.ofList text.reverse) .plain, hasBreak, c)
  | .error e => .error e

/-! ### Quoted scalars -/

/-- The character of a one-letter escape. -/
def letterEscape? : Char → Option Char
  | '0' => some '\u0000'
  | 'a' => some '\u0007'
  | 'b' => some '\u0008'
  | 't' | '\t' => some '\t'
  | 'n' => some '\n'
  | 'v' => some '\u000b'
  | 'f' => some '\u000c'
  | 'r' => some '\r'
  | 'e' => some '\u001b'
  | ' ' => some ' '
  | '"' => some '"'
  | '/' => some '/'
  | '\\' => some '\\'
  | 'N' => some '\u0085'
  | '_' => some '\u00a0'
  | 'L' => some '\u2028'
  | 'P' => some '\u2029'
  | _ => none

/-- The number of hexadecimal digits after the letter of a numeric escape. -/
def numericEscapeLength? : Char → Option Nat
  | 'x' => some 2
  | 'u' => some 4
  | 'U' => some 8
  | _ => none

/-- The character of an escape after its backslash, and the number of characters it takes. -/
def readEscape : List Char → Except Fault (Char × Nat)
  | [] => .error .badEscape
  | letter :: rest =>
    match letterEscape? letter, numericEscapeLength? letter with
    | some c, _ => .ok (c, 1)
    | none, none => .error .badEscape
    | none, some n =>
      let digits := rest.take n
      match Text.readNumeral 16 digits with
      | none => .error .badEscape
      | some code =>
        if digits.length = n ∧ code.isValidChar then .ok (Char.ofNat code, n + 1)
        else .error .badEscape

/-- What ends a run of characters in quotes: a gap, the closing quote, or an escaped line break. -/
inductive QuotedStop where
  | gap
  | closed
  | escapedBreak

/-- The characters in quotes up to a gap, the closing quote or an escaped line break, added to
`run`, which is reversed, and the number of characters taken. -/
def quotedRun (single : Bool) :
    Nat → List Char → Nat → List Char → Except Fault (List Char × Nat × QuotedStop)
  | 0, run, n, _ => .ok (run, n, .gap)
  | _ + 1, run, n, [] => .ok (run, n, .gap)
  | fuel + 1, run, n, c :: rest =>
    if isBlank c || isBreak c then .ok (run, n, .gap)
    else if single then
      if c = '\'' then
        match rest with
        | '\'' :: rest => quotedRun single fuel ('\'' :: run) (n + 2) rest
        | _ => .ok (run, n, .closed)
      else quotedRun single fuel (c :: run) (n + 1) rest
    else if c = '"' then .ok (run, n, .closed)
    else if c = '\\' then
      if startsWith isBreak rest then .ok (run, n, .escapedBreak)
      else
        match readEscape rest with
        | .error e => .error e
        | .ok (d, k) => quotedRun single fuel (d :: run) (n + 1 + k) (rest.drop k)
    else quotedRun single fuel (c :: run) (n + 1) rest

/-- The loop of `readQuoted`; `text` holds what has been read, reversed. -/
def quotedFrom (single : Bool) : Nat → List Char → Cursor → Except Fault (List Char × Cursor)
  | 0, _, _ => .error .unfinished
  | fuel + 1, text, c =>
    if c.atDocumentMarker || c.rest.isEmpty then .error .unterminatedScalar
    else
      match quotedRun single (c.bound) [] 0 c.rest with
      | .error e => .error e
      | .ok (run, n, stop) =>
        let text := run ++ text
        let c := c.skip n
        match stop with
        | .closed => .ok (text, c.skip 1)
        | .escapedBreak =>
          let c := (c.skip 1).lineBreak.2
          match Gap.read 0 (c.bound) { hasBreak := true } c with
          | .error e => .error e
          | .ok (gap, c) => quotedFrom single fuel (gap.moreBreaks ++ text) c
        | .gap =>
          match Gap.read 0 (c.bound) {} c with
          | .error e => .error e
          | .ok (gap, c) => quotedFrom single fuel (gap.folded.reverse ++ text) c

/-- Reads a scalar in single or double quotes. -/
def readQuoted (single : Bool) (c : Cursor) : Except Fault (Token × Cursor) :=
  match quotedFrom single (c.bound) [] (c.skip 1) with
  | .ok (text, c) => .ok (.scalar (String.ofList text.reverse) .quoted, c)
  | .error e => .error e

/-! ### Block scalars -/

/-- What happens to the line breaks at the end of a block scalar. -/
inductive Chomping where
  | strip
  | clip
  | keep
  deriving DecidableEq

/-- The chomping mark at the front of a text. -/
def chomping? : List Char → Option Chomping
  | '+' :: _ => some .keep
  | '-' :: _ => some .strip
  | _ => none

/-- The indentation mark at the front of a text: a digit that is not zero. -/
def increment? : List Char → Except Fault (Option Nat)
  | c :: _ =>
    if c = '0' then .error .badBlockHeader
    else if c.isDigit then .ok (some (c.toNat - 48))
    else .ok none
  | [] => .ok none

/-- Reads the header of a block scalar after its indicator: a chomping and an indentation mark in
either order, and nothing but a comment behind them. -/
def blockHeader (c : Cursor) : Except Fault (Chomping × Option Nat × Cursor) := do
  let (chomping, increment, c) ← match chomping? c.rest with
    | some chomping => do
      let c := c.skip 1
      match ← increment? c.rest with
      | some n => pure (chomping, some n, c.skip 1)
      | none => pure (chomping, none, c)
    | none => do
      match ← increment? c.rest with
      | some n =>
        let c := c.skip 1
        match chomping? c.rest with
        | some chomping => pure (chomping, some n, c.skip 1)
        | none => pure (.clip, some n, c)
      | none => pure (.clip, none, c)
  let c := c.skipWhile isBlank
  let c := if startsWith (· == '#') c.rest then c.skipToLineEnd else c
  if atLineEnd c.rest then .ok (chomping, increment, c.lineBreak.2) else .error .badBlockHeader

/-- Reads indentation and empty lines before a line of a block scalar. Without a known indentation
any number of spaces is taken. The result holds the breaks, reversed, and the widest indentation. -/
def blockBreaks (indent : Option Nat) :
    Nat → List Char → Nat → Cursor → Except Fault (List Char × Nat × Cursor)
  | 0, breaks, widest, c => .ok (breaks, widest, c)
  | fuel + 1, breaks, widest, c =>
    let spaces := (c.rest.takeWhile (· == ' ')).length
    let wanted := match indent with
      | some n => min spaces (n - c.column)
      | none => spaces
    let c := c.skip wanted
    let widest := max widest c.column
    let isShort := match indent with
      | some n => decide (c.column < n)
      | none => true
    if isShort && startsWith (· == '\t') c.rest then .error .tabAsIndentation
    else if startsWith isBreak c.rest then
      let (lineBreak, c) := c.lineBreak
      blockBreaks indent fuel (lineBreak.reverse ++ breaks) widest c
    else .ok (breaks, widest, c)

/-- The lines of a block scalar so far: the text, the break after its last line, the breaks of empty
lines after that, and whether the last line started with a blank. Lists of characters are reversed,
but for the one break. -/
structure BlockText where
  text : List Char := []
  lastBreak : List Char := []
  moreBreaks : List Char := []
  afterBlank : Bool := false

/-- The text of a block scalar before its next line. In a folded scalar a line feed between two
lines that do not start with a blank becomes a space, or nothing before empty lines. -/
def BlockText.joined (b : BlockText) (folds : Bool) (nextIsBlank : Bool) : List Char :=
  let joint :=
    if folds && b.lastBreak == ['\n'] && !b.afterBlank && !nextIsBlank then
      if b.moreBreaks.isEmpty then [' '] else []
    else b.lastBreak
  b.moreBreaks ++ (joint ++ b.text)

/-- The lines of a block scalar that are indented by `indent`. -/
def blockLines (folds : Bool) (indent : Nat) :
    Nat → BlockText → Cursor → Except Fault (BlockText × Cursor)
  | 0, b, c => .ok (b, c)
  | fuel + 1, b, c =>
    if c.column = indent ∧ !c.rest.isEmpty then
      let isBlankLine := startsWith isBlank c.rest
      let (run, c) := c.span fun d => !isBreak d
      let text := run.reverse ++ b.joined folds isBlankLine
      let (lineBreak, c) := c.lineBreak
      match blockBreaks (some indent) (c.bound) [] 0 c with
      | .error e => .error e
      | .ok (breaks, _, c) => blockLines folds indent fuel ⟨text, lineBreak, breaks, isBlankLine⟩ c
    else .ok (b, c)

/-- The text of a block scalar at its end. -/
def BlockText.finished (b : BlockText) (chomping : Chomping) : List Char :=
  match chomping with
  | .strip => b.text.reverse
  | .clip => (b.lastBreak ++ b.text).reverse
  | .keep => (b.moreBreaks ++ (b.lastBreak ++ b.text)).reverse

/-- Reads a block scalar inside a block that is indented by `outer`, or by nothing at the top. -/
def readBlock (folds : Bool) (outer : Option Nat) (c : Cursor) : Except Fault (Token × Cursor) := do
  let (chomping, increment, c) ← blockHeader (c.skip 1)
  let known := increment.map fun n => outer.getD 0 + n
  let (breaks, widest, c) ← blockBreaks known (c.bound) [] 0 c
  let least := match outer with
    | some n => n + 1
    | none => 1
  let indent := known.getD (max widest least)
  let (b, c) ← blockLines folds indent (c.bound) { moreBreaks := breaks } c
  .ok (.scalar (String.ofList (b.finished chomping)) (if folds then .folded else .literal), c)

end WireSchema.Yaml
