import WireSchema.Bytes

/-!
# UTF-8

Characters to bytes and back. `encode` writes the shortest form of each character. Reading goes one
character at a time (`next`): a byte string that is no well-formed character is consumed up to the
first byte that cannot continue it, and at least by its first byte.

* `decode?` — well-formed text, or nothing;
* `decodeLossy` — any byte string; each malformed part becomes one replacement character.
-/

namespace WireSchema.Utf8

/-! ### Writing -/

/-- The bytes of one character. -/
def encodeChar (c : Char) : Bytes :=
  let n := c.toNat
  if n < 0x80 then [UInt8.ofNat n]
  else if n < 0x800 then [UInt8.ofNat (0xc0 + n / 0x40), UInt8.ofNat (0x80 + n % 0x40)]
  else if n < 0x10000 then
    [UInt8.ofNat (0xe0 + n / 0x1000), UInt8.ofNat (0x80 + n / 0x40 % 0x40),
      UInt8.ofNat (0x80 + n % 0x40)]
  else
    [UInt8.ofNat (0xf0 + n / 0x40000), UInt8.ofNat (0x80 + n / 0x1000 % 0x40),
      UInt8.ofNat (0x80 + n / 0x40 % 0x40), UInt8.ofNat (0x80 + n % 0x40)]

/-- The bytes of a text. -/
def encode (s : List Char) : Bytes :=
  s.flatMap encodeChar

/-! ### Reading one character -/

/-- Whether a byte continues a character. -/
def isContinuation (b : UInt8) : Bool :=
  0x80 ≤ b && b ≤ 0xbf

/-- The bytes that may follow a leading byte: the second byte decides whether the form is the
shortest and the character is no surrogate and within range. -/
def isSecond (lead b : UInt8) : Bool :=
  if lead = 0xe0 then 0xa0 ≤ b && b ≤ 0xbf
  else if lead = 0xed then 0x80 ≤ b && b ≤ 0x9f
  else if lead = 0xf0 then 0x90 ≤ b && b ≤ 0xbf
  else if lead = 0xf4 then 0x80 ≤ b && b ≤ 0x8f
  else isContinuation b

/-- How many bytes a leading byte announces; nothing for a byte that leads no character. -/
def announcedLength (lead : UInt8) : Option Nat :=
  if lead < 0x80 then some 1
  else if 0xc2 ≤ lead && lead ≤ 0xdf then some 2
  else if 0xe0 ≤ lead && lead ≤ 0xef then some 3
  else if 0xf0 ≤ lead && lead ≤ 0xf4 then some 4
  else none

/-- The payload bits of a continuation byte. -/
def low6 (b : UInt8) : Nat :=
  b.toNat % 0x40

/-- The character that starts with `lead`, or nothing if it is malformed, and the bytes after what
was consumed. -/
def next (lead : UInt8) (rest : Bytes) : Option Char × Bytes :=
  match announcedLength lead, rest with
  | some 1, rest => (some (Char.ofNat lead.toNat), rest)
  | some 2, b :: rest =>
    if isContinuation b then (some (Char.ofNat (lead.toNat % 0x20 * 0x40 + low6 b)), rest)
    else (none, b :: rest)
  | some 3, b :: rest =>
    if isSecond lead b then
      match rest with
      | c :: rest =>
        if isContinuation c then
          (some (Char.ofNat (lead.toNat % 0x10 * 0x1000 + low6 b * 0x40 + low6 c)), rest)
        else (none, c :: rest)
      | [] => (none, [])
    else (none, b :: rest)
  | some 4, b :: rest =>
    if isSecond lead b then
      match rest with
      | c :: rest =>
        if isContinuation c then
          match rest with
          | d :: rest =>
            if isContinuation d then
              (some (Char.ofNat
                (lead.toNat % 0x8 * 0x40000 + low6 b * 0x1000 + low6 c * 0x40 + low6 d)), rest)
            else (none, d :: rest)
          | [] => (none, [])
        else (none, c :: rest)
      | [] => (none, [])
    else (none, b :: rest)
  | _, rest => (none, rest)

/-- A character takes at least its leading byte. -/
theorem length_next_le (lead : UInt8) (rest : Bytes) : (next lead rest).2.length ≤ rest.length := by
  unfold next
  repeat' split
  all_goals (simp only [List.length_cons]; omega)

/-! ### Reading a text -/

/-- The loop of `decodeLossy`; `done` holds the characters read, reversed. -/
def decodeLossyFrom (done : List Char) : Bytes → List Char
  | [] => done.reverse
  | lead :: rest =>
    decodeLossyFrom ((next lead rest).1.getD '\ufffd' :: done) (next lead rest).2
  termination_by s => s.length
  decreasing_by
    have := length_next_le lead rest
    simp only [List.length_cons]
    omega

/-- The text of a byte string, with a replacement character for each malformed part. -/
def decodeLossy (s : Bytes) : List Char :=
  decodeLossyFrom [] s

/-- The loop of `decode?`. -/
def decodeFrom? (done : List Char) : Bytes → Option (List Char)
  | [] => some done.reverse
  | lead :: rest =>
    match (next lead rest).1 with
    | some c => decodeFrom? (c :: done) (next lead rest).2
    | none => none
  termination_by s => s.length
  decreasing_by
    have := length_next_le lead rest
    simp only [List.length_cons]
    omega

/-- The text of a byte string that is well formed throughout. -/
def decode? (s : Bytes) : Option (List Char) :=
  decodeFrom? [] s

end WireSchema.Utf8
