import WireSchema.Binary64.Text
import WireSchema.Text.Quoted
import WireSchema.Yaml.Node

/-!
# YAML values

What the nodes of a document mean: null, truth values, numbers, strings, sequences, mappings, and
values with a local tag. Plain scalars mean what they look like; every other scalar is a string
unless its tag says otherwise. A mapping has distinct keys. A document may be nested 128 collections
deep, and its aliases may be followed a hundred times for each of its marks.

* `plainScalar` — the value of a plain scalar;
* `Value.ofNode` — the value of a node;
* `Value.read` — the value of a text;
* `Value.describe` — a value as a text for people.
-/

namespace WireSchema.Yaml

open WireSchema.Text

/-- A number: an integer that is not negative, a negative one, or one with a fraction. -/
inductive Number where
  | nonneg (n : Nat)
  | negative (n : Nat)
  | fraction (x : Binary64)
  deriving DecidableEq

/-- A value. A negative number is kept by its magnitude. -/
inductive Value where
  | null
  | bool (b : Bool)
  | number (n : Number)
  | string (s : String)
  | sequence (items : List Value)
  | mapping (entries : List (Value × Value))
  | tagged (tag : String) (value : Value)

/-! ### Plain scalars -/

/-- The truth value of a word. -/
def truth? (s : String) : Option Bool :=
  if s = "true" ∨ s = "True" ∨ s = "TRUE" then some true
  else if s = "false" ∨ s = "False" ∨ s = "FALSE" then some false
  else none

/-- Whether a word means null. -/
def isNull (s : String) : Bool :=
  s == "null" || s == "Null" || s == "NULL" || s == "~"

/-- The magnitude of an integer without a sign, in the base that its first characters tell. Digits
behind a zero are no decimal number. -/
def magnitude? : List Char → Option Nat
  | '0' :: 'x' :: digits => readNumeral 16 digits
  | '0' :: 'o' :: digits => readNumeral 8 digits
  | '0' :: 'b' :: digits => readNumeral 2 digits
  | ['0'] => some 0
  | '0' :: _ => none
  | digits => readNumeral 10 digits

/-- Whether a text consists of a zero and more digits, after an optional sign. -/
def isZeroPadded (s : List Char) : Bool :=
  let digits := match s with
    | '-' :: rest | '+' :: rest => rest
    | _ => s
  match digits with
  | '0' :: d :: rest => (d :: rest).all Char.isDigit
  | _ => false

/-- What a text is as an integer: no integer, a number, or one that needs more than 64 bits but no
more than 128. -/
inductive IntegerText where
  | none
  | number (n : Number)
  | tooLarge

/-- The integer that a text denotes. -/
def integerText (s : List Char) : IntegerText :=
  match s with
  | '-' :: rest =>
    match magnitude? rest with
    | some n =>
      if n = 0 then .number (.nonneg 0)
      else if n ≤ 0x8000000000000000 then .number (.negative n)
      else if n ≤ 0x80000000000000000000000000000000 then .tooLarge
      else .none
    | none => .none
  | _ =>
    let digits := match s with
      | '+' :: rest => rest
      | _ => s
    match magnitude? digits with
    | some n =>
      if n < 0x10000000000000000 then .number (.nonneg n)
      else if n < 0x100000000000000000000000000000000 then .tooLarge
      else .none
    | none => .none

/-- The number with a fraction that a text denotes: one of the names of infinity and not-a-number,
or a decimal number that is finite. -/
def fraction? (s : List Char) : Option Binary64 :=
  let unsigned? := match s with
    | '+' :: '+' :: _ | '+' :: '-' :: _ => none
    | '+' :: rest => some rest
    | _ => some s
  match unsigned? with
  | none => none
  | some unsigned =>
    let word := String.ofList unsigned
    if word = ".inf" ∨ word = ".Inf" ∨ word = ".INF" then some (.infinity false)
    else if s = "-.inf".toList ∨ s = "-.Inf".toList ∨ s = "-.INF".toList then some (.infinity true)
    else if s = ".nan".toList ∨ s = ".NaN".toList ∨ s = ".NAN".toList then some .nan
    else (Binary64.read? unsigned).filter Binary64.isFinite

/-- The value of a plain scalar. -/
def plainScalar (s : String) : Except Fault Value :=
  if s = "" ∨ isNull s then .ok .null
  else
    match truth? s, integerText s.toList with
    | some b, _ => .ok (.bool b)
    | none, .number n => .ok (.number n)
    | none, .tooLarge => .error .numberOutOfRange
    | none, .none =>
      match if isZeroPadded s.toList then none else fraction? s.toList with
      | some x => .ok (.number (.fraction x))
      | none => .ok (.string s)

/-! ### Tagged scalars -/

/-- The name of a local tag: what follows its exclamation mark. -/
def localTag? (tag : String) : Option String :=
  match tag.toList with
  | ['!'] => some "!"
  | '!' :: name => some (String.ofList name)
  | _ => none

/-- The value of a scalar whose tag is not local. -/
def taggedScalar (tag text : String) : Except Fault Value :=
  let orFault (v : Option Value) : Except Fault Value :=
    match v with
    | some v => .ok v
    | none => .error .scalarNotOfTag
  if tag = "tag:yaml.org,2002:bool" then orFault ((truth? text).map .bool)
  else if tag = "tag:yaml.org,2002:int" then
    match integerText text.toList with
    | .number n => .ok (.number n)
    | .tooLarge => .error .numberOutOfRange
    | .none => .error .scalarNotOfTag
  else if tag = "tag:yaml.org,2002:float" then
    orFault ((fraction? text.toList).map fun x => .number (.fraction x))
  else if tag = "tag:yaml.org,2002:null" then
    orFault (if isNull text then some .null else none)
  else .ok (.string text)

/-- The value of a scalar without regard to a local tag. -/
def untaggedScalar (text : String) (style : ScalarStyle) : Except Fault Value :=
  if style = .plain then plainScalar text else .ok (.string text)

/-- The value of a scalar with its tag, if it has one. -/
def scalarValue (tag : Option String) (text : String) (style : ScalarStyle) : Except Fault Value :=
  match tag with
  | none => untaggedScalar text style
  | some tag =>
    match localTag? tag with
    | some name => (untaggedScalar text style).map (.tagged name)
    | none => taggedScalar tag text

/-- A value under the local tag of its collection, if that has one. -/
def underTag (tag : Option String) (v : Value) : Value :=
  match tag.bind localTag? with
  | some name => .tagged name v
  | none => v

/-! ### Equality of keys -/

/-- Whether two numbers are the same; not-a-number is the same as itself, and the zeros are the
same. -/
def Number.same : Number → Number → Bool
  | nonneg a, nonneg b => a == b
  | negative a, negative b => a == b
  | fraction (.finite _ 0 _ _), fraction (.finite _ 0 _ _) => true
  | fraction a, fraction b => a == b
  | _, _ => false

mutual

/-- Whether two values are the same; the order of the entries of a mapping does not matter. -/
def Value.same : Value → Value → Bool
  | .null, .null => true
  | .bool a, .bool b => a == b
  | .number a, .number b => a.same b
  | .string a, .string b => a == b
  | .sequence a, .sequence b => sameItems a b
  | .mapping a, .mapping b => a.length == b.length && sameEntries a b
  | .tagged s a, .tagged t b => s == t && Value.same a b
  | _, _ => false

/-- Whether two sequences have the same items. -/
def sameItems : List Value → List Value → Bool
  | [], [] => true
  | a :: as, b :: bs => Value.same a b && sameItems as bs
  | _, _ => false

/-- Whether every entry of the first mapping is in the second one. -/
def sameEntries : List (Value × Value) → List (Value × Value) → Bool
  | [], _ => true
  | (k, v) :: rest, other =>
    other.any (fun entry => Value.same k entry.1 && Value.same v entry.2) && sameEntries rest other

end

/-! ### Values of nodes -/

/-- How often aliases may be followed: so far, and at most. -/
structure AliasBudget where
  used : Nat
  limit : Nat

/-- The budget after one more alias. -/
def AliasBudget.spend (b : AliasBudget) : Except Fault AliasBudget :=
  if b.limit ≤ b.used then .error .tooManyAliases else .ok { b with used := b.used + 1 }

mutual

/-- The value of a node that stands inside collections of which so many more may be nested. -/
def valueOf (depth : Nat) (b : AliasBudget) : Node → Except Fault (Value × AliasBudget)
  | .scalar tag text style => (scalarValue tag text style).map (·, b)
  | .cyclic => .error .cyclicAlias
  | .shared target =>
    match b.spend with
    | .ok b => valueOf depth b target
    | .error e => .error e
  | .sequence tag items =>
    match depth with
    | 0 => .error .tooDeep
    | depth + 1 =>
      match valuesOf depth b [] items with
      | .ok (values, b) => .ok (underTag tag (.sequence values), b)
      | .error e => .error e
  | .mapping tag entries =>
    match depth with
    | 0 => .error .tooDeep
    | depth + 1 =>
      match entriesOf depth b [] entries with
      | .ok (values, b) => .ok (underTag tag (.mapping values), b)
      | .error e => .error e

/-- The values of the items of a sequence; `done` holds those before, reversed. -/
def valuesOf (depth : Nat) (b : AliasBudget) (done : List Value) :
    List Node → Except Fault (List Value × AliasBudget)
  | [] => .ok (done.reverse, b)
  | n :: rest =>
    match valueOf depth b n with
    | .ok (v, b) => valuesOf depth b (v :: done) rest
    | .error e => .error e

/-- The values of the entries of a mapping; `done` holds those before, reversed. -/
def entriesOf (depth : Nat) (b : AliasBudget) (done : List (Value × Value)) :
    List (Node × Node) → Except Fault (List (Value × Value) × AliasBudget)
  | [] => .ok (done.reverse, b)
  | (kn, vn) :: rest =>
    match valueOf depth b kn with
    | .error e => .error e
    | .ok (k, b) =>
      if done.any (fun entry => k.same entry.1) then .error .duplicateKey
      else
        match valueOf depth b vn with
        | .ok (v, b) => entriesOf depth b ((k, v) :: done) rest
        | .error e => .error e

end

namespace Value

/-- The value of a document. -/
def ofNode (n : Node) : Except Fault Value :=
  (valueOf 128 ⟨0, 100 * n.markCount⟩ n).map Prod.fst

/-- The value of a text. -/
def read (text : String) : Except Fault Value := do
  let n ← Node.read text
  ofNode n

/-! ### Views -/

/-- The value without its tags. -/
def untagged : Value → Value
  | tagged _ v => untagged v
  | v => v

/-- The string that a value is, tags apart. -/
def string? (v : Value) : Option String :=
  match v.untagged with
  | string s => some s
  | _ => none

/-- The natural number that a value is, tags apart. -/
def natural? (v : Value) : Option Nat :=
  match v.untagged with
  | number (.nonneg n) => some n
  | _ => none

/-- The entries of the mapping that a value is, tags apart. -/
def entries? (v : Value) : Option (List (Value × Value)) :=
  match v.untagged with
  | mapping entries => some entries
  | _ => none

end Value

/-! ### Values as text -/

/-- A number as a text. -/
def Number.text : Number → String
  | nonneg n => String.ofList (numeral 10 n)
  | negative n => String.ofList ('-' :: numeral 10 n)
  | fraction x => String.ofList x.compact

mutual

/-- A value as a text for people. -/
def Value.describe : Value → String
  | .null => "Null"
  | .bool b => "Bool(" ++ toString b ++ ")"
  | .number n => "Number(" ++ n.text ++ ")"
  | .string s => "String(" ++ quoted s ++ ")"
  | .sequence items => "Sequence [" ++ String.intercalate ", " (describeItems items) ++ "]"
  | .mapping entries =>
    "Mapping \x7b" ++ String.intercalate ", " (describeEntries entries) ++ "\x7d"
  | .tagged tag v =>
    "TaggedValue \x7b tag: !" ++ tag ++ ", value: " ++ Value.describe v ++ " \x7d"

/-- The items of a sequence as texts. -/
def describeItems : List Value → List String
  | [] => []
  | v :: rest => Value.describe v :: describeItems rest

/-- The entries of a mapping as texts; keys that are simple scalars stand without their kind. -/
def describeEntries : List (Value × Value) → List String
  | [] => []
  | (k, v) :: rest =>
    let key := match k with
      | .string s => quoted s
      | .bool b => toString b
      | .number n => n.text
      | k => Value.describe k
    (key ++ ": " ++ Value.describe v) :: describeEntries rest

end

end WireSchema.Yaml
