import WireSchema.Yaml.Token.Scan

/-!
# Nodes of a YAML document

The tree of a document: scalars, sequences and mappings with their tags. An alias holds the node
that its anchor stands for; an anchor counts from the start of its node on, so that an alias inside
that node is cyclic. A stream must hold exactly one document, which may be empty.

* `Node.ofTokens` — the document of a list of tokens;
* `Node.read` — the document of a text.
-/

namespace WireSchema.Yaml

/-- A node of a document, or the place of an alias. -/
inductive Node where
  | scalar (tag : Option String) (text : String) (style : ScalarStyle)
  | sequence (tag : Option String) (items : List Node)
  | mapping (tag : Option String) (entries : List (Node × Node))
  | shared (target : Node)
  | cyclic

namespace Node

/-- The node that stands where nothing is written. -/
def nothing : Node := .scalar none "" .plain

mutual

/-- The number of marks that a document consists of: one for a scalar or an alias, and two for a
collection besides those inside. -/
def markCount : Node → Nat
  | scalar .. => 1
  | sequence _ items => 2 + itemMarks items
  | mapping _ entries => 2 + entryMarks entries
  | shared _ => 1
  | cyclic => 1

/-- The marks of the items of a sequence. -/
def itemMarks : List Node → Nat
  | [] => 0
  | n :: rest => markCount n + itemMarks rest

/-- The marks of the entries of a mapping. -/
def entryMarks : List (Node × Node) → Nat
  | [] => 0
  | (k, v) :: rest => markCount k + markCount v + entryMarks rest

end

end Node

/-! ### Reading state -/

/-- The tokens that are left, and the anchors so far with the last one first; a node that is not yet
complete is missing. -/
structure TokenReader where
  tokens : List Token
  anchors : List (String × Option Node) := []
  handles : List (String × String)

namespace TokenReader

/-- The state without the first token. -/
def skip (r : TokenReader) : TokenReader :=
  { r with tokens := r.tokens.drop 1 }

/-- Whether the first token is one of some tokens. -/
def isAt (r : TokenReader) (tokens : List Token) : Bool :=
  match r.tokens with
  | t :: _ => tokens.contains t
  | [] => false

/-- The tag of a handle and a suffix. -/
def tagOf (r : TokenReader) (handle suffix : String) : Except Fault String :=
  if handle = "" then .ok suffix
  else
    match r.handles.lookup handle with
    | some lead => .ok (lead ++ suffix)
    | none => .error .undefinedTagHandle

/-- Reads an anchor and a tag, in either order. -/
def properties (r : TokenReader) : Except Fault (Option String × Option String × TokenReader) :=
  match r.tokens with
  | .anchor a :: .tag handle suffix :: rest | .tag handle suffix :: .anchor a :: rest => do
    let tag ← r.tagOf handle suffix
    .ok (some a, some tag, { r with tokens := rest })
  | .anchor a :: rest => .ok (some a, none, { r with tokens := rest })
  | .tag handle suffix :: rest => do
    let tag ← r.tagOf handle suffix
    .ok (none, some tag, { r with tokens := rest })
  | _ => .ok (none, none, r)

/-- The state in which an anchor stands for a node that is not yet complete. -/
def openAnchor (r : TokenReader) : Option String → TokenReader
  | some a => { r with anchors := (a, none) :: r.anchors }
  | none => r

/-- The state in which the anchor that was opened after `before` earlier ones stands for a node. -/
def closeAnchor (r : TokenReader) (anchor : Option String) (before : Nat) (n : Node) :
    TokenReader :=
  match anchor with
  | some a => { r with anchors := r.anchors.set (r.anchors.length - 1 - before) (a, some n) }
  | none => r

end TokenReader

/-! ### Grammar -/

/-- Where a node stands: in a block, in a block where a sequence may start without indentation, or
inside brackets or braces. -/
inductive Place where
  | block
  | blockOrEntries
  | flow
  deriving DecidableEq

mutual

/-- Reads a node. -/
def readNode : Nat → Place → TokenReader → Except Fault (Node × TokenReader)
  | 0, _, _ => .error .unfinished
  | fuel + 1, place, r =>
    match r.tokens with
    | .aliasOf name :: _ =>
      match r.anchors.lookup name with
      | some (some target) => .ok (.shared target, r.skip)
      | some none => .ok (.cyclic, r.skip)
      | none => .error .undefinedAnchor
    | _ => do
      let (anchor, tag, r) ← r.properties
      let before := r.anchors.length
      let (n, r) ← readContent fuel place tag anchor.isSome (r.openAnchor anchor)
      .ok (n, r.closeAnchor anchor before n)

/-- Reads a node after its anchor and tag; a node with either may be empty. -/
def readContent : Nat → Place → Option String → Bool → TokenReader →
    Except Fault (Node × TokenReader)
  | 0, _, _, _, _ => .error .unfinished
  | fuel + 1, place, tag, hasAnchor, r =>
    match r.tokens with
    | .scalar text style :: _ =>
      .ok (.scalar (if tag = some "!" then none else tag) text style, r.skip)
    | .flowSequenceStart :: _ => flowSequence fuel tag true [] r.skip
    | .flowMappingStart :: _ => flowMapping fuel tag true [] r.skip
    | .blockEntry :: _ =>
      if place = .blockOrEntries then entries fuel tag [] r
      else if tag.isSome || hasAnchor then .ok (.scalar tag "" .plain, r)
      else .error .unexpectedToken
    | .blockSequenceStart :: _ =>
      if place = .flow then
        if tag.isSome || hasAnchor then .ok (.scalar tag "" .plain, r) else .error .unexpectedToken
      else blockSequence fuel tag [] r.skip
    | .blockMappingStart :: _ =>
      if place = .flow then
        if tag.isSome || hasAnchor then .ok (.scalar tag "" .plain, r) else .error .unexpectedToken
      else blockMapping fuel tag [] r.skip
    | _ =>
      if tag.isSome || hasAnchor then .ok (.scalar tag "" .plain, r) else .error .unexpectedToken

/-- Reads the entries of an indented sequence; `done` holds the entries before, reversed. -/
def blockSequence : Nat → Option String → List Node → TokenReader →
    Except Fault (Node × TokenReader)
  | 0, _, _, _ => .error .unfinished
  | fuel + 1, tag, done, r =>
    match r.tokens with
    | .blockEntry :: _ =>
      let r := r.skip
      if r.isAt [.blockEntry, .blockEnd] then blockSequence fuel tag (.nothing :: done) r
      else
        match readNode fuel .block r with
        | .ok (n, r) => blockSequence fuel tag (n :: done) r
        | .error e => .error e
    | .blockEnd :: _ => .ok (.sequence tag done.reverse, r.skip)
    | _ => .error .unexpectedToken

/-- Reads the entries of a sequence that is not indented; `done` holds the entries before,
reversed. -/
def entries : Nat → Option String → List Node → TokenReader → Except Fault (Node × TokenReader)
  | 0, _, _, _ => .error .unfinished
  | fuel + 1, tag, done, r =>
    match r.tokens with
    | .blockEntry :: _ =>
      let r := r.skip
      if r.isAt [.blockEntry, .key, .value, .blockEnd] then entries fuel tag (.nothing :: done) r
      else
        match readNode fuel .block r with
        | .ok (n, r) => entries fuel tag (n :: done) r
        | .error e => .error e
    | _ => .ok (.sequence tag done.reverse, r)

/-- Reads the entries of a mapping in a block; `done` holds the entries before, reversed. -/
def blockMapping : Nat → Option String → List (Node × Node) → TokenReader →
    Except Fault (Node × TokenReader)
  | 0, _, _, _ => .error .unfinished
  | fuel + 1, tag, done, r =>
    match r.tokens with
    | .blockEnd :: _ => .ok (.mapping tag done.reverse, r.skip)
    | .key :: _ =>
      match blockPart fuel r.skip with
      | .error e => .error e
      | .ok (k, r) =>
        match blockValue fuel r with
        | .ok (v, r) => blockMapping fuel tag ((k, v) :: done) r
        | .error e => .error e
    | _ => .error .unexpectedToken

/-- Reads a key or a value in a block after its indicator; it may be missing. -/
def blockPart : Nat → TokenReader → Except Fault (Node × TokenReader)
  | 0, _ => .error .unfinished
  | fuel + 1, r =>
    if r.isAt [.key, .value, .blockEnd] then .ok (.nothing, r) else readNode fuel .blockOrEntries r

/-- Reads a value in a block with its indicator; both may be missing. -/
def blockValue : Nat → TokenReader → Except Fault (Node × TokenReader)
  | 0, _ => .error .unfinished
  | fuel + 1, r => if r.isAt [.value] then blockPart fuel r.skip else .ok (.nothing, r)

/-- Reads the items of a sequence in brackets; `done` holds the items before, reversed. A single
pair may stand without braces. -/
def flowSequence : Nat → Option String → Bool → List Node → TokenReader →
    Except Fault (Node × TokenReader)
  | 0, _, _, _, _ => .error .unfinished
  | fuel + 1, tag, isFirst, done, r =>
    if r.isAt [.flowSequenceEnd] then .ok (.sequence tag done.reverse, r.skip)
    else if !isFirst && !r.isAt [.flowEntry] then .error .unexpectedToken
    else
      let r := if isFirst then r else r.skip
      if r.isAt [.flowSequenceEnd] then .ok (.sequence tag done.reverse, r.skip)
      else
        let item := if r.isAt [.key] then flowPair fuel r.skip else readNode fuel .flow r
        match item with
        | .ok (n, r) => flowSequence fuel tag false (n :: done) r
        | .error e => .error e

/-- Reads the single pair of an item in brackets, after the indicator of its key. A missing key
takes the token in its place with it. -/
def flowPair : Nat → TokenReader → Except Fault (Node × TokenReader)
  | 0, _ => .error .unfinished
  | fuel + 1, r =>
    let key := if r.isAt [.value, .flowEntry, .flowSequenceEnd] then .ok (.nothing, r.skip)
      else readNode fuel .flow r
    match key with
    | .error e => .error e
    | .ok (k, r) =>
      match flowValue fuel .flowSequenceEnd r with
      | .ok (v, r) => .ok (.mapping none [(k, v)], r)
      | .error e => .error e

/-- Reads a value in brackets or braces with its indicator; both may be missing. -/
def flowValue : Nat → Token → TokenReader → Except Fault (Node × TokenReader)
  | 0, _, _ => .error .unfinished
  | fuel + 1, close, r =>
    if r.isAt [.value] then
      let r := r.skip
      if r.isAt [.flowEntry, close] then .ok (.nothing, r) else readNode fuel .flow r
    else .ok (.nothing, r)

/-- Reads the entries of a mapping in braces; `done` holds the entries before, reversed. -/
def flowMapping : Nat → Option String → Bool → List (Node × Node) → TokenReader →
    Except Fault (Node × TokenReader)
  | 0, _, _, _, _ => .error .unfinished
  | fuel + 1, tag, isFirst, done, r =>
    if r.isAt [.flowMappingEnd] then .ok (.mapping tag done.reverse, r.skip)
    else if !isFirst && !r.isAt [.flowEntry] then .error .unexpectedToken
    else
      let r := if isFirst then r else r.skip
      if r.isAt [.flowMappingEnd] then .ok (.mapping tag done.reverse, r.skip)
      else if r.isAt [.key] then
        let r := r.skip
        let key := if r.isAt [.value, .flowEntry, .flowMappingEnd] then .ok (.nothing, r)
          else readNode fuel .flow r
        match key with
        | .error e => .error e
        | .ok (k, r) =>
          match flowValue fuel .flowMappingEnd r with
          | .ok (v, r) => flowMapping fuel tag false ((k, v) :: done) r
          | .error e => .error e
      else
        match readNode fuel .flow r with
        | .ok (k, r) => flowMapping fuel tag false ((k, .nothing) :: done) r
        | .error e => .error e

end

/-! ### Documents -/

/-- The handles that need no directive. -/
def defaultHandles : List (String × String) :=
  [("!", "!"), ("!!", "tag:yaml.org,2002:")]

/-- Reads the directives of a document: at most one version, which must be 1.1 or 1.2, and one text
for each tag handle. -/
def readDirectives (hasVersion : Bool) (handles : List (String × String)) :
    List Token → Except Fault (List (String × String) × List Token)
  | .version major minor :: rest =>
    if hasVersion || major != 1 || (minor != 1 && minor != 2) then .error .badDirective
    else readDirectives true handles rest
  | .tagHandle handle lead :: rest =>
    if (handles.lookup handle).isSome then .error .badDirective
    else readDirectives hasVersion ((handle, lead) :: handles) rest
  | tokens => .ok (handles, tokens)

/-- Reads the node of a document; it may be missing after a start marker. -/
def readRoot (handles : List (String × String)) (tokens : List Token) :
    Except Fault (Node × List Token) := do
  let (n, r) ← readNode (4 * tokens.length + 8) .block ⟨tokens, [], handles ++ defaultHandles⟩
  .ok (n, r.tokens)

/-- Whether no node follows the start marker of a document. -/
def isEmptyDocument : List Token → Bool
  | [] | .version _ _ :: _ | .tagHandle _ _ :: _ | .documentStart :: _ | .documentEnd :: _ => true
  | _ => false

/-- Reads a document, with directives and a start marker or without. -/
def readDocument (tokens : List Token) : Except Fault (Node × List Token) :=
  match tokens with
  | .version _ _ :: _ | .tagHandle _ _ :: _ | .documentStart :: _ => do
    let (handles, tokens) ← readDirectives false [] tokens
    match tokens with
    | .documentStart :: rest =>
      if isEmptyDocument rest then .ok (.nothing, rest) else readRoot handles rest
    | _ => .error .unexpectedToken
  | _ => readRoot [] tokens

/-- The document of a list of tokens. Nothing but end markers may follow it. -/
def Node.ofTokens (tokens : List Token) : Except Fault Node :=
  match tokens with
  | [] => .ok .nothing
  | _ => do
    let (n, rest) ← readDocument tokens
    if rest.all (· == .documentEnd) then .ok n else .error .notOneDocument

/-- The document of a text. -/
def Node.read (text : String) : Except Fault Node := do
  let tokens ← Token.scan text.toList
  Node.ofTokens tokens

end WireSchema.Yaml
