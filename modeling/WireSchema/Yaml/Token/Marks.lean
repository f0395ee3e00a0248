import WireSchema.Text.Numeral
import WireSchema.Utf8
import WireSchema.Yaml.Cursor
import WireSchema.Yaml.Fault
import WireSchema.Yaml.Token.Basic

/-!
# Directives, anchors and tags

The marks that a YAML text sets beside its content: directives at the start of a document, and the
anchors, aliases and tags of nodes.
-/

namespace WireSchema.Yaml

/-! ### Anchors -/

/-- Reads the name of an anchor or an alias after its indicator. -/
def readName (c : Cursor) : Except Fault (String × Cursor) :=
  let (name, c) := (c.skip 1).span isWordChar
  let ends := atWordEnd c.rest ||
    startsWith (fun d => d == '?' || d == ':' || d == ',' || d == ']' || d == '}' || d == '%' ||
      d == '@' || d == '\u0060') c.rest
  if name.isEmpty || !ends then .error .badAnchor else .ok (String.ofList name, c)

/-! ### Tags -/

/-- The characters of a tag besides word characters and escapes; `wide` adds those that are
indicators in flow collections. -/
def isTagChar (wide : Bool) (c : Char) : Bool :=
  isWordChar c || c == ';' || c == '/' || c == '?' || c == ':' || c == '@' || c == '&' ||
    c == '=' || c == '+' || c == '$' || c == '.' || c == '!' || c == '~' || c == '*' ||
    c == '\'' || c == '(' || c == ')' || (wide && (c == ',' || c == '[' || c == ']'))

/-- The characters of a tag, with escaped bytes read as UTF-8; `pending` holds escaped bytes that
are not yet part of a character, and both lists are reversed. -/
def tagChars (wide : Bool) (done : List Char) (pending : Bytes) (n : Nat) :
    List Char → Except Fault (List Char × Nat)
  | '%' :: a :: b :: rest =>
    match Text.readNumeral 16 [a, b] with
    | some v => tagChars wide done (UInt8.ofNat v :: pending) (n + 3) rest
    | none => .error .badTag
  | c :: rest =>
    match Utf8.decode? pending.reverse with
    | none => .error .badTag
    | some escaped =>
      let done := escaped.reverse ++ done
      if c == '%' then .error .badTag
      else if isTagChar wide c then tagChars wide (c :: done) [] (n + 1) rest
      else .ok (done.reverse, n)
  | [] =>
    match Utf8.decode? pending.reverse with
    | none => .error .badTag
    | some escaped => .ok (done.reverse ++ escaped, n)

/-- Reads the rest of a tag that starts with `lead`. It may be empty only after a non-empty lead. -/
def readTagChars (wide : Bool) (lead : List Char) (c : Cursor) :
    Except Fault (List Char × Cursor) :=
  match tagChars wide [] [] 0 c.rest with
  | .error e => .error e
  | .ok (chars, n) =>
    if lead.isEmpty && n == 0 then .error .badTag else .ok (lead.drop 1 ++ chars, c.skip n)

/-- Reads a tag handle: an exclamation mark, and a word between two of them. A directive needs the
second mark unless the handle is a single mark. -/
def readHandle (inDirective : Bool) (c : Cursor) : Except Fault (List Char × Cursor) :=
  match c.rest with
  | '!' :: _ =>
    let (word, c) := (c.skip 1).span isWordChar
    match c.rest with
    | '!' :: _ => .ok ('!' :: (word ++ ['!']), c.skip 1)
    | _ => if inDirective && !word.isEmpty then .error .badTag else .ok ('!' :: word, c)
  | _ => .error .badTag

/-- Reads the tag of a node: a whole tag in angle brackets, a handle and a suffix, or a suffix of
the primary handle. -/
def readTag (inFlow : Bool) (c : Cursor) : Except Fault (Token × Cursor) := do
  let (token, c) ← match c.rest with
    | '!' :: '<' :: _ => do
      let (suffix, c) ← readTagChars true [] (c.skip 2)
      match c.rest with
      | '>' :: _ => pure (Token.tag "" (String.ofList suffix), c.skip 1)
      | _ => throw .badTag
    | _ => do
      let (handle, c) ← readHandle false c
      if 2 ≤ handle.length ∧ handle.getLast? = some '!' then do
        let (suffix, c) ← readTagChars false [] c
        pure (Token.tag (String.ofList handle) (String.ofList suffix), c)
      else do
        let (suffix, c) ← readTagChars false handle c
        pure (if suffix.isEmpty then Token.tag "" "!" else Token.tag "!" (String.ofList suffix), c)
  if atWordEnd c.rest || (inFlow && startsWith (· == ',') c.rest) then .ok (token, c)
  else .error .badTag

/-! ### Directives -/

/-- Reads a number of one to nine digits. -/
def readVersionNumber (c : Cursor) : Except Fault (Nat × Cursor) :=
  let (digits, c) := c.span Char.isDigit
  match Text.readNumeral 10 digits with
  | some n => if digits.length ≤ 9 then .ok (n, c) else .error .badDirective
  | none => .error .badDirective

/-- Reads the version in a directive. -/
def readVersion (c : Cursor) : Except Fault (Token × Cursor) := do
  let (major, c) ← readVersionNumber (c.skipWhile isBlank)
  match c.rest with
  | '.' :: _ => do
    let (minor, c) ← readVersionNumber (c.skip 1)
    .ok (.version major minor, c)
  | _ => .error .badDirective

/-- Reads the handle and the text that it stands for in a directive. -/
def readTagDirective (c : Cursor) : Except Fault (Token × Cursor) := do
  let (handle, c) ← readHandle true (c.skipWhile isBlank)
  if !startsWith isBlank c.rest then throw .badDirective
  let (lead, c) ← readTagChars true [] (c.skipWhile isBlank)
  if !atWordEnd c.rest then throw .badDirective
  .ok (.tagHandle (String.ofList handle) (String.ofList lead), c)

/-- Reads a directive with its line. -/
def readDirective (c : Cursor) : Except Fault (Token × Cursor) := do
  let (name, c) := (c.skip 1).span isWordChar
  if name.isEmpty || !atWordEnd c.rest then throw .badDirective
  let (token, c) ←
    if name = "YAML".toList then readVersion c
    else if name = "TAG".toList then readTagDirective c
    else throw .badDirective
  let c := c.skipWhile isBlank
  let c := if startsWith (· == '#') c.rest then c.skipToLineEnd else c
  if atLineEnd c.rest then .ok (token, c.lineBreak.2) else .error .badDirective

end WireSchema.Yaml
