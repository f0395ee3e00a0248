import WireSchema.Yaml.Token.Marks
import WireSchema.Yaml.Token.Scalar

/-!
# Tokens of a YAML text

Block structure follows the indentation: a collection opens at the first entry that is indented more
than the block around it, and closes before the first token that is indented less. A mapping key is
known as one only when its colon comes; until then its place is remembered (`PossibleKey`), and the
tokens that open the mapping and mark the key are put there afterwards (`Scanner.splices`).

* `Scanner.step` — reads one token;
* `Token.scan` — all tokens of a text.
-/

namespace WireSchema.Yaml

/-- A place where a mapping key may have started. It is required when nothing else may start there:
at the indentation of the current block. -/
structure PossibleKey where
  tokenNumber : Nat
  index : Nat
  line : Nat
  column : Nat
  required : Bool

/-- The state between two tokens: the cursor, the tokens so far with the last one first, the tokens
to put before earlier ones, the indentation of the open blocks with the innermost first, whether a
key may start at the cursor, and the possible key of each open flow collection and of the block. -/
structure Scanner where
  cursor : Cursor
  tokens : List Token := []
  count : Nat := 0
  splices : List (Nat × List Token) := []
  indents : List Nat := []
  keyAllowed : Bool := true
  keys : List (Option PossibleKey) := [none]

namespace Scanner

/-- Whether the cursor is inside brackets or braces. -/
def inFlow (s : Scanner) : Bool :=
  1 < s.keys.length

/-- The state with one more token. -/
def push (s : Scanner) (t : Token) : Scanner :=
  { s with tokens := t :: s.tokens, count := s.count + 1 }

/-! ### Indentation -/

/-- Opens a block at a column, if that is indented more than the current block. The token that opens
it stands at the given place, or last. -/
def openBlock (s : Scanner) (column : Nat) (place : Option Nat) (t : Token) : Scanner :=
  let deeper := match s.indents with
    | [] => true
    | n :: _ => n < column
  if s.inFlow || !deeper then s
  else
    let s := { s with indents := column :: s.indents }
    match place with
    | some n => { s with splices := (n, [t]) :: s.splices }
    | none => s.push t

/-- Closes the blocks whose indentation a condition names, innermost first. -/
def closeBlocks (closes : Nat → Bool) (s : Scanner) : Scanner :=
  let closed := s.indents.takeWhile closes
  { s with
    indents := s.indents.drop closed.length
    tokens := closed.map (fun _ => Token.blockEnd) ++ s.tokens
    count := s.count + closed.length }

/-- Closes the blocks that are indented more than a column. -/
def closeBlocksBeyond (column : Nat) (s : Scanner) : Scanner :=
  if s.inFlow then s else s.closeBlocks fun n => column < n

/-- Closes all blocks. -/
def closeAllBlocks (s : Scanner) : Scanner :=
  if s.inFlow then s else s.closeBlocks fun _ => true

/-! ### Possible keys -/

/-- Gives up the possible key of the innermost collection, which must not be required. -/
def dropKey (s : Scanner) : Except Fault Scanner :=
  match s.keys with
  | some k :: rest =>
    if k.required then .error .keyWithoutValue else .ok { s with keys := none :: rest }
  | _ => .ok s

/-- Remembers the cursor as the start of a possible key, where one is allowed. -/
def saveKey (s : Scanner) : Except Fault Scanner :=
  if s.keyAllowed then do
    let required := !s.inFlow && s.indents.head? == some s.cursor.column
    let key : PossibleKey :=
      ⟨s.count, s.cursor.index, s.cursor.line, s.cursor.column, required⟩
    let s ← s.dropKey
    .ok { s with keys := some key :: s.keys.drop 1 }
  else .ok s

/-- Gives up the keys that are too far back: on an earlier line, or more than 1024 characters. -/
def dropStaleKeys (s : Scanner) : Except Fault Scanner := do
  let keys ← s.keys.mapM fun key =>
    match key with
    | some k =>
      if k.line < s.cursor.line ∨ k.index + 1024 < s.cursor.index then
        if k.required then .error Fault.keyWithoutValue else .ok none
      else .ok (some k)
    | none => .ok none
  .ok { s with keys := keys }

/-! ### Reading tokens -/

/-- Skips blanks, comments and line breaks before a token. A line break in a block allows a key. -/
def skipToToken : Nat → Scanner → Scanner
  | 0, s => s
  | fuel + 1, s =>
    let c := s.cursor
    let c := if c.index == 0 && startsWith (· == '\ufeff') c.rest then c.skip 1 else c
    let tabs := s.inFlow || !s.keyAllowed
    let c := c.skipWhile fun d => d == ' ' || (tabs && d == '\t')
    let c := if startsWith (· == '#') c.rest then c.skipToLineEnd else c
    if startsWith isBreak c.rest then
      skipToToken fuel
        { s with cursor := c.lineBreak.2, keyAllowed := s.keyAllowed || !s.inFlow }
    else { s with cursor := c }

/-- The state after an indicator of `n` characters, which is a token of its own. -/
def indicator (s : Scanner) (n : Nat) (t : Token) : Scanner :=
  { s with cursor := s.cursor.skip n }.push t

/-- The state after a token that was read up to a cursor. -/
def pushRead (s : Scanner) (read : Except Fault (Token × Cursor)) : Except Fault Scanner :=
  match read with
  | .ok (t, c) => .ok ({ s with cursor := c }.push t)
  | .error e => .error e

/-- The start or the end of a document, or a directive: all blocks end there. -/
def betweenDocuments (s : Scanner) : Except Fault Scanner := do
  let s ← s.closeAllBlocks.dropKey
  .ok { s with keyAllowed := false }

/-- An opening bracket or brace. -/
def openFlow (s : Scanner) (t : Token) : Except Fault Scanner := do
  let s ← s.saveKey
  .ok ({ s with keys := none :: s.keys, keyAllowed := true }.indicator 1 t)

/-- A closing bracket or brace. -/
def closeFlow (s : Scanner) (t : Token) : Except Fault Scanner := do
  let s ← s.dropKey
  let keys := if s.inFlow then s.keys.drop 1 else s.keys
  .ok ({ s with keys := keys, keyAllowed := false }.indicator 1 t)

/-- The dash of a block entry. -/
def blockEntry (s : Scanner) : Except Fault Scanner := do
  if !s.inFlow && !s.keyAllowed then throw .misplacedIndicator
  let s ← (s.openBlock s.cursor.column none .blockSequenceStart).dropKey
  .ok ({ s with keyAllowed := true }.indicator 1 .blockEntry)

/-- The question mark of a key. -/
def explicitKey (s : Scanner) : Except Fault Scanner := do
  if !s.inFlow && !s.keyAllowed then throw .misplacedIndicator
  let s ← (s.openBlock s.cursor.column none .blockMappingStart).dropKey
  .ok ({ s with keyAllowed := !s.inFlow }.indicator 1 .key)

/-- The colon of a value, after a key that was remembered or after none. -/
def valueIndicator (s : Scanner) : Except Fault Scanner :=
  match s.keys with
  | some k :: rest =>
    let s := { s with keys := none :: rest, splices := (k.tokenNumber, [.key]) :: s.splices }
    let s := s.openBlock k.column (some k.tokenNumber) .blockMappingStart
    .ok ({ s with keyAllowed := false }.indicator 1 .value)
  | _ =>
    if s.inFlow then .ok ({ s with keyAllowed := false }.indicator 1 .value)
    else if s.keyAllowed then
      .ok ((s.openBlock s.cursor.column none .blockMappingStart).indicator 1 .value)
    else .error .misplacedIndicator

/-- A name, a tag or a scalar that may be a key. -/
def content (s : Scanner) (read : Scanner → Except Fault (Token × Cursor)) :
    Except Fault Scanner := do
  let s ← s.saveKey
  { s with keyAllowed := false }.pushRead (read s)

/-- A block scalar. -/
def blockScalar (s : Scanner) (folds : Bool) : Except Fault Scanner := do
  let s ← s.dropKey
  { s with keyAllowed := true }.pushRead (readBlock folds s.indents.head? s.cursor)

/-- A plain scalar. A key is allowed behind it if a line break ends it. -/
def plainScalar (s : Scanner) : Except Fault Scanner := do
  let s ← s.saveKey
  let indent := match s.indents with
    | n :: _ => n + 1
    | [] => 0
  let (t, hasBreak, c) ← readPlain s.inFlow indent s.cursor
  .ok ({ s with cursor := c, keyAllowed := hasBreak }.push t)

/-- Whether a plain scalar may start with a character before `rest`. -/
def startsPlain (inFlow : Bool) (c : Char) (rest : List Char) : Bool :=
  let isIndicator := isBlank c || isBreak c || isFlowIndicator c || c == '-' || c == '?' ||
    c == ':' || c == '#' || c == '&' || c == '*' || c == '!' || c == '|' || c == '>' ||
    c == '\'' || c == '"' || c == '%' || c == '@' || c == '\u0060'
  !isIndicator || (c == '-' && !startsWith isBlank rest) ||
    (!inFlow && (c == '?' || c == ':') && !atWordEnd rest)

/-- Reads one token at a character that is not skipped; `rest` is what follows the character. -/
def token (s : Scanner) (c : Char) (rest : List Char) : Except Fault Scanner :=
  if s.cursor.column == 0 && c == '%' then do
    let s ← s.betweenDocuments
    s.pushRead (readDirective s.cursor)
  else if s.cursor.atDocumentMarker then do
    let s ← s.betweenDocuments
    .ok (s.indicator 3 (if c = '-' then .documentStart else .documentEnd))
  else if c = '[' then s.openFlow .flowSequenceStart
  else if c = '{' then s.openFlow .flowMappingStart
  else if c = ']' then s.closeFlow .flowSequenceEnd
  else if c = '}' then s.closeFlow .flowMappingEnd
  else if c = ',' then do
    let s ← s.dropKey
    .ok ({ s with keyAllowed := true }.indicator 1 .flowEntry)
  else if c == '-' && atWordEnd rest then s.blockEntry
  else if c == '?' && (s.inFlow || atWordEnd rest) then s.explicitKey
  else if c == ':' && (s.inFlow || atWordEnd rest) then s.valueIndicator
  else if c = '*' then
    s.content fun s => (readName s.cursor).map fun r => (.aliasOf r.1, r.2)
  else if c = '&' then
    s.content fun s => (readName s.cursor).map fun r => (.anchor r.1, r.2)
  else if c = '!' then s.content fun s => readTag s.inFlow s.cursor
  else if c == '|' && !s.inFlow then s.blockScalar false
  else if c == '>' && !s.inFlow then s.blockScalar true
  else if c = '\'' then s.content fun s => readQuoted true s.cursor
  else if c = '"' then s.content fun s => readQuoted false s.cursor
  else if startsPlain s.inFlow c rest then s.plainScalar
  else .error .unexpectedCharacter

/-- Skips to the next token and reads it; nothing at the end of the text, where all blocks end. -/
def step (s : Scanner) : Except Fault (Scanner × Bool) := do
  let s := skipToToken s.cursor.bound s
  let s ← s.dropStaleKeys
  let s := s.closeBlocksBeyond s.cursor.column
  match s.cursor.rest with
  | [] => do
    let s ← s.closeAllBlocks.dropKey
    .ok (s, false)
  | c :: rest => do
    let s ← s.token c rest
    .ok (s, true)

/-- Reads tokens up to the end of the text. -/
def run : Nat → Scanner → Except Fault Scanner
  | 0, _ => .error .unfinished
  | fuel + 1, s =>
    match s.step with
    | .error e => .error e
    | .ok (s, true) => run fuel s
    | .ok (s, false) => .ok s

/-- The tokens with the splices, which are sorted by their place, put in; `n` is the number of the
first token and `done` holds the tokens before it, reversed. -/
def spliced (done : List Token) (n : Nat) :
    List Token → List (Nat × List Token) → List Token
  | [], splices => done.reverse ++ splices.flatMap Prod.snd
  | t :: tokens, splices =>
    let here := splices.takeWhile fun entry => entry.1 == n
    let later := splices.drop here.length
    spliced (t :: ((here.flatMap Prod.snd).reverse ++ done)) (n + 1) tokens later

end Scanner

/-- The tokens of a text. -/
def Token.scan (text : List Char) : Except Fault (List Token) := do
  if !text.all isAllowed then throw .forbiddenCharacter
  let s ← Scanner.run (text.length + 2) { cursor := .start text }
  .ok (Scanner.spliced [] 0 s.tokens.reverse (s.splices.mergeSort fun a b => a.1 ≤ b.1))

end WireSchema.Yaml
