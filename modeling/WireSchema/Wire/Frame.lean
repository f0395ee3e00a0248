import WireSchema.Wire.Error

/-!
# Frames

A frame is a header of four bytes and a payload. The header holds the length of the payload in two
bytes, then the type and the sender, one byte each.

* `FrameHeader.peek?` / `FrameHeader.encode` — reading and writing a header;
* `splitFrame?` — the first frame of a byte string and what follows it;
* `splitFrames` — all complete frames of a byte string, one after the other, and what is left.
-/

namespace WireSchema

/-! ### Headers -/

/-- The length of a header. -/
def headerSize : Nat := 4

/-- What stands before a payload. -/
structure FrameHeader where
  payloadLen : UInt16
  type : UInt8
  userId : UInt8
  deriving DecidableEq, Repr

namespace FrameHeader

/-- The header at the front of a byte string. -/
def peek? : Bytes → Option FrameHeader
  | high :: low :: type :: userId :: _ =>
    some ⟨UInt16.ofNat (high.toNat * 0x100 + low.toNat), type, userId⟩
  | _ => none

/-- The bytes of a header. -/
def encode (h : FrameHeader) : Bytes :=
  bytesOfWord h.payloadLen ++ [h.type, h.userId]

/-- The length of a frame, header included. -/
def frameLen (h : FrameHeader) : Nat :=
  headerSize + h.payloadLen.toNat

theorem peek?_encode_append (h : FrameHeader) (rest : Bytes) :
    peek? (h.encode ++ rest) = some h := by
  have hlt := h.payloadLen.toNat_lt
  show some (FrameHeader.mk (UInt16.ofNat ((UInt8.ofNat (h.payloadLen.toNat / 0x100)).toNat * 0x100
    + (UInt8.ofNat h.payloadLen.toNat).toNat)) h.type h.userId) = some h
  have hsum : (UInt8.ofNat (h.payloadLen.toNat / 0x100)).toNat * 0x100
      + (UInt8.ofNat h.payloadLen.toNat).toNat = h.payloadLen.toNat := by
    simp only [UInt8.toNat_ofNat']
    omega
  rw [hsum, UInt16.ofNat_toNat]

end FrameHeader

/-! ### Cutting off bytes -/

/-- The loop of `takeExactly?`; `done` holds the bytes taken, reversed. -/
def takeFrom? (done : Bytes) : Nat → Bytes → Option (Bytes × Bytes)
  | 0, s => some (done.reverse, s)
  | _ + 1, [] => none
  | n + 1, b :: s => takeFrom? (b :: done) n s

/-- The first `n` bytes and the rest; nothing if there are fewer. -/
def takeExactly? (n : Nat) (s : Bytes) : Option (Bytes × Bytes) :=
  takeFrom? [] n s

theorem takeFrom?_eq (n : Nat) (done s : Bytes) :
    takeFrom? done n s =
      if n ≤ s.length then some (done.reverse ++ s.take n, s.drop n) else none := by
  induction n generalizing done s with
  | zero => simp [takeFrom?]
  | succ n ih =>
    cases s with
    | nil => simp [takeFrom?]
    | cons b s =>
      simp only [takeFrom?, ih, List.length_cons, Nat.add_le_add_iff_right, List.reverse_cons,
        List.append_assoc, List.singleton_append, List.take_succ_cons, List.drop_succ_cons]

theorem takeExactly?_eq (n : Nat) (s : Bytes) :
    takeExactly? n s = if n ≤ s.length then some (s.take n, s.drop n) else none := by
  rw [takeExactly?, takeFrom?_eq, List.reverse_nil, List.nil_append]

/-! ### Splitting -/

/-- The first frame of a byte string, as header and payload, and the bytes after it; nothing until
the frame is complete. -/
def splitFrame? (s : Bytes) : Option ((FrameHeader × Bytes) × Bytes) :=
  match FrameHeader.peek? s with
  | none => none
  | some h =>
    match takeExactly? h.payloadLen.toNat (s.drop headerSize) with
    | none => none
    | some (payload, rest) => some ((h, payload), rest)

/-- Why a byte string does not start with a complete frame. -/
def incompleteFrame (s : Bytes) : WireError :=
  match FrameHeader.peek? s with
  | none => ⟨0, 0, 0, .headerTooShort⟩
  | some h => ⟨h.userId, h.type, h.payloadLen.toNat, .truncated⟩

/-- A complete frame takes at least its header. -/
theorem length_of_splitFrame? {s : Bytes} {frame : FrameHeader × Bytes} {rest : Bytes}
    (h : splitFrame? s = some (frame, rest)) : rest.length < s.length := by
  unfold splitFrame? at h
  split at h
  · simp at h
  · rename_i header hpeek
    rw [takeExactly?_eq] at h
    split at h
    · simp at h
    · rename_i payload rest' htake
      simp only [Option.some.injEq, Prod.mk.injEq] at h
      split at htake
      · simp only [Option.some.injEq, Prod.mk.injEq] at htake
        have hlen : 0 < s.length := by
          cases s with
          | nil => simp [FrameHeader.peek?] at hpeek
          | cons b s => simp
        rw [← h.2, ← htake.2, List.length_drop, List.length_drop, headerSize]
        omega
      · simp at htake

/-- The complete frames at the front of a byte string, in order, and the bytes left over. -/
def splitFrames (s : Bytes) : List (FrameHeader × Bytes) × Bytes :=
  match _h : splitFrame? s with
  | none => ([], s)
  | some (frame, rest) =>
    let more := splitFrames rest
    (frame :: more.1, more.2)
  termination_by s.length
  decreasing_by exact length_of_splitFrame? _h

end WireSchema
