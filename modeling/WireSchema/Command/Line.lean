import WireSchema.Command.Basic
import WireSchema.Text.Blank

/-!
# Lines of commands

The written form of a command is one line of words: the sender, the name, then `key=value` for each
argument. Values are escaped so that each is one word. Records stand in a block: the line ends in an
opening brace, each record has a line of its own, and a closing brace ends the block. Empty lines
and lines that start with `#` are skipped; a line that starts with `!` is metadata.

* `escape` / `unescape` — the values of arguments;
* `Command.render` — the written form;
* `LineReader.read` — one line at a time;
* `Command.ofText` — a text that holds exactly one command.
-/

namespace WireSchema

open WireSchema.Text

/-! ### Escaping -/

/-- One character of an escaped value. -/
def escapeChar (c : Char) : List Char :=
  match c with
  | '\\' => ['\\', '\\']
  | ' ' => ['\\', 's']
  | '\t' => ['\\', 't']
  | '\r' => ['\\', 'r']
  | '\n' => ['\\', 'n']
  | _ => if isBlank c then ['\\', 'u', '{'] ++ numeral 16 c.toNat ++ ['}'] else [c]

/-- A value without blanks: each is written by a letter or by its code point. -/
def escape (s : List Char) : List Char :=
  s.flatMap escapeChar

/-- The hexadecimal digits of a code point up to the closing brace, at most `fuel` of them, and
what follows; `digits` holds the digits before, reversed. -/
def codePointDigits (digits : List Char) : Nat → List Char → Option (List Char × List Char)
  | _, '}' :: rest => some (digits.reverse, rest)
  | fuel + 1, c :: rest =>
    if (digitValue c).isSome then codePointDigits (c :: digits) fuel rest else none
  | _, _ => none

/-- The character of a code point; there is none for surrogates and beyond the last one. -/
def charOfCodePoint? (n : Nat) : Option Char :=
  if h : n.isValidChar then some (Char.ofNatAux n h) else none

/-- The character that a code point in braces denotes, and what follows. -/
def unescapeCodePoint : List Char → Except LineFault (Char × List Char)
  | '{' :: rest =>
    match codePointDigits [] 6 rest with
    | some (digits, rest) =>
      match (readNumeral 16 digits).bind charOfCodePoint? with
      | some c => .ok (c, rest)
      | none => .error .malformedCodePoint
    | none => .error .malformedCodePoint
  | _ => .error .malformedCodePoint

/-- The character after a backslash, and what follows. -/
def unescapeOne : List Char → Except LineFault (Char × List Char)
  | [] => .error .danglingEscape
  | c :: rest =>
    match c with
    | '\\' => .ok ('\\', rest)
    | 's' => .ok (' ', rest)
    | 't' => .ok ('\t', rest)
    | 'r' => .ok ('\r', rest)
    | 'n' => .ok ('\n', rest)
    | 'u' => unescapeCodePoint rest
    | _ => .error (.unknownEscape c)

theorem codePointDigits_length {digits out rest : List Char} {fuel : Nat} {s : List Char}
    (h : codePointDigits digits fuel s = some (out, rest)) : rest.length < s.length := by
  fun_induction codePointDigits digits fuel s with
  | case1 digits fuel tail =>
    simp only [Option.some.injEq, Prod.mk.injEq] at h
    simp [h.2]
  | case2 digits fuel c tail hc hd ih =>
    have := ih h
    simp only [List.length_cons]
    omega
  | case3 => simp at h
  | case4 => simp at h

/-- An escape takes at least one character. -/
theorem length_of_unescapeOne {s rest : List Char} {c : Char} (h : unescapeOne s = .ok (c, rest)) :
    rest.length < s.length := by
  unfold unescapeOne at h
  split at h
  · simp at h
  · rename_i d tail
    split at h
    case h_6 =>
      unfold unescapeCodePoint at h
      split at h
      · rename_i inner
        split at h
        · rename_i digits after hdigits
          split at h
          · simp only [Except.ok.injEq, Prod.mk.injEq] at h
            have := codePointDigits_length hdigits
            rw [← h.2]
            simp only [List.length_cons]
            omega
          · simp at h
        · simp at h
      · simp at h
    all_goals
      first
      | simp at h; done
      | (simp only [Except.ok.injEq, Prod.mk.injEq] at h
         rw [← h.2]
         simp)

/-- The loop of `unescape`; `done` holds the characters before, reversed. -/
def unescapeFrom (done : List Char) : List Char → Except LineFault (List Char)
  | [] => .ok done.reverse
  | c :: rest =>
    if c = '\\' then
      match _h : unescapeOne rest with
      | .ok (d, tail) => unescapeFrom (d :: done) tail
      | .error e => .error e
    else unescapeFrom (c :: done) rest
  termination_by s => s.length
  decreasing_by
    · have := length_of_unescapeOne _h
      simp only [List.length_cons]
      omega
    · simp

/-- The value of an escaped text. -/
def unescape (s : List Char) : Except LineFault (List Char) :=
  unescapeFrom [] s

/-! ### Writing -/

/-- The numbers of a record, with a space between them. -/
def renderRecord (record : List Binary64) : List Char :=
  List.intercalate [' '] (record.map Binary64.positional)

/-- An argument, with a space before it. -/
def renderArgument (arg : String × String) : List Char :=
  ' ' :: (arg.1.toList ++ '=' :: escape arg.2.toList)

namespace Command

/-- The first line without an opening brace. -/
def renderHead (c : Command) : List Char :=
  numeral 10 c.userId.toNat ++ ' ' :: (c.name.toList ++ c.args.flatMap renderArgument)

/-- The records as a block; nothing if there are none. -/
def renderBlock (records : List (List Binary64)) : List Char :=
  if records.isEmpty then []
  else [' ', '{'] ++ records.flatMap (fun r => '\n' :: '\t' :: renderRecord r) ++ ['\n', '}']

/-- The written form of a command. -/
def render (c : Command) : List Char :=
  c.renderHead ++ renderBlock c.records

end Command

/-! ### Reading one line -/

/-- The command with the argument of one more word. -/
def Command.addWord (c : Command) (word : List Char) : Except LineFault Command :=
  match cutAt '=' word with
  | none => .error (.expectedArgument (String.ofList word))
  | some (key, value) =>
    match unescape value with
    | .ok value => .ok (c.set (String.ofList key) (String.ofList value))
    | .error e => .error e

/-- The command of a line's words. The line itself is given for the error. -/
def Command.ofWords (line : List Char) : List (List Char) → Except LineFault Command
  | userId :: name :: args =>
    match readBelow 10 256 userId with
    | none => .error (.invalidUserId (String.ofList userId))
    | some n => args.foldlM Command.addWord ⟨UInt8.ofNat n, String.ofList name, [], []⟩
  | _ => .error (.expectedCommand (String.ofList line))

/-- The command of a line, and whether the line opens a block. -/
def readCommandLine (line : List Char) : Except LineFault (Command × Bool) :=
  let all := words line
  let opens := all.getLast? == some ['{']
  match Command.ofWords line (if opens then all.dropLast else all) with
  | .ok c => .ok (c, opens)
  | .error e => .error e

/-- The numbers of a record line. -/
def readRecordLine (line : List Char) : Except LineFault (List Binary64) :=
  (words line).mapM fun word =>
    match Binary64.read? word with
    | some x => .ok x
    | none => .error (.invalidRecordValue (String.ofList word))

/-- The key and the value of a metadata line after its mark. -/
def readMetadataLine (line content : List Char) : Except LineFault (String × String) :=
  match cutAt '=' content with
  | none => .error (.metadataWithoutEquals (String.ofList line))
  | some (key, value) =>
    match unescape value with
    | .ok value => .ok (String.ofList (trim key), String.ofList value)
    | .error e => .error e

/-! ### Reading line by line -/

/-- What a line contributes: nothing, a part of a block, metadata, or the end of a command. -/
inductive LineResult where
  | skip
  | needMore
  | metadata (key value : String)
  | command (c : Command)
  deriving DecidableEq

/-- A command whose block is open, and the records so far, the last one first. -/
structure OpenBlock where
  command : Command
  records : List (List Binary64) := []
  deriving DecidableEq

/-- The command of a block that is closed. -/
def OpenBlock.close (b : OpenBlock) : Command :=
  { b.command with records := b.records.reverse }

/-- A reader of lines: the block that is open, if any. -/
structure LineReader where
  pending : Option OpenBlock := none
  deriving DecidableEq

namespace LineReader

/-- Whether a line without blanks around it carries nothing. -/
def isIdle (line : List Char) : Bool :=
  match line with
  | [] => true
  | c :: _ => c == '#'

/-- Reads a line inside a block. -/
def readInBlock (b : OpenBlock) (line : List Char) : Except LineFault LineResult × LineReader :=
  if line = ['}'] then (.ok (.command b.close), ⟨none⟩)
  else if isIdle line then (.ok .needMore, ⟨some b⟩)
  else
    match readRecordLine line with
    | .ok record => (.ok .needMore, ⟨some { b with records := record :: b.records }⟩)
    | .error e => (.error e, ⟨none⟩)

/-- Reads a line outside of a block. -/
def readOutside (line : List Char) : Except LineFault LineResult × LineReader :=
  if isIdle line then (.ok .skip, ⟨none⟩)
  else
    match line with
    | '!' :: content =>
      match readMetadataLine line content with
      | .ok (key, value) => (.ok (.metadata key value), ⟨none⟩)
      | .error e => (.error e, ⟨none⟩)
    | _ =>
      match readCommandLine line with
      | .ok (c, true) => (.ok .needMore, ⟨some ⟨c, []⟩⟩)
      | .ok (c, false) => (.ok (.command c), ⟨none⟩)
      | .error e => (.error e, ⟨none⟩)

/-- Reads one line; blanks around it do not matter. -/
def read (r : LineReader) (line : List Char) : Except LineFault LineResult × LineReader :=
  match r.pending with
  | some b => readInBlock b (trim line)
  | none => readOutside (trim line)

/-- Ends the input, which must not be inside a block. -/
def finish (r : LineReader) : Except LineFault Unit × LineReader :=
  match r.pending with
  | some b => (.error (.unterminatedBlock b.command.name), ⟨none⟩)
  | none => (.ok (), r)

end LineReader

/-! ### Reading one command -/

/-- The one command of some lines; `found` is the command of earlier lines, if any. -/
def commandOfLines (r : LineReader) (found : Option Command) :
    List (List Char) → Except LineFault Command
  | [] =>
    match r.finish.1, found with
    | .error e, _ => .error e
    | .ok (), none => .error .noMessage
    | .ok (), some c => .ok c
  | line :: rest =>
    match r.read line with
    | (.error e, _) => .error e
    | (.ok (.metadata key _), _) => .error (.unexpectedMetadata key)
    | (.ok (.command c), r) =>
      if found.isSome then .error .severalMessages else commandOfLines r (some c) rest
    | (.ok _, r) => commandOfLines r found rest

/-- The command of a text that holds exactly one. -/
def Command.ofText (s : List Char) : Except LineFault Command :=
  commandOfLines {} none (lines s)

end WireSchema
