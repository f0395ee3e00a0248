import Mathlib
import WireSchema.Proofs.Wire.Scalar
import WireSchema.Wire.Codec

/-!
# Cutting a byte string into frames

A byte string is the complete frames at its front, one after the other, and what is left.

* `splitFrame?_frameBytes_append`, `splitFrame?_eq_some` — the first frame and its bytes;
* `flatten_splitFrames` — the frames and what is left make up the byte string;
* `Framed`, `framed_iff` — they are the only complete frames that do;
* `Catalogue.decode_frameBytes_append` — reading a frame, whatever follows it.
-/

namespace WireSchema

/-! ### The first frame -/

/-- The bytes of a frame. -/
def frameBytes (frame : FrameHeader × Bytes) : Bytes :=
  frame.1.encode ++ frame.2

theorem FrameHeader.length_encode (h : FrameHeader) : h.encode.length = headerSize := by
  rw [encode, List.length_append, length_bytesOfWord]
  rfl

/-- A header that was read stands at the front of its byte string. -/
theorem FrameHeader.peek?_eq_some {s : Bytes} {h : FrameHeader} (hs : peek? s = some h) :
    s = h.encode ++ s.drop headerSize := by
  unfold peek? at hs
  split at hs
  · rename_i high low type userId rest
    cases hs
    rw [encode, bytesOfWord_ofNat]
    rfl
  · cases hs

/-- A frame is split off whatever follows it. -/
theorem splitFrame?_frameBytes_append {h : FrameHeader} {payload : Bytes}
    (hlength : payload.length = h.payloadLen.toNat) (rest : Bytes) :
    splitFrame? (frameBytes (h, payload) ++ rest) = some ((h, payload), rest) := by
  have hdrop : (h.encode ++ (payload ++ rest)).drop headerSize = payload ++ rest := by
    rw [← h.length_encode, List.drop_left]
  unfold splitFrame?
  rw [frameBytes, List.append_assoc, FrameHeader.peek?_encode_append]
  simp only [hdrop, takeExactly?_eq, ← hlength, List.length_append, Nat.le_add_right, if_true,
    List.take_left, List.drop_left]

/-- The frame that is split off and the bytes after it make up the byte string. -/
theorem splitFrame?_eq_some {s rest : Bytes} {h : FrameHeader} {payload : Bytes}
    (hs : splitFrame? s = some ((h, payload), rest)) :
    s = frameBytes (h, payload) ++ rest ∧ payload.length = h.payloadLen.toNat := by
  unfold splitFrame? at hs
  split at hs
  · cases hs
  rename_i header hpeek
  rw [takeExactly?_eq] at hs
  split at hs
  · cases hs
  rename_i htake
  cases hs
  split at htake
  · rename_i hle
    cases htake
    refine ⟨?_, List.length_take_of_le hle⟩
    rw [frameBytes, List.append_assoc, List.take_append_drop]
    exact FrameHeader.peek?_eq_some hpeek
  · cases htake

/-- The first frame of a byte string stays the first one when more bytes follow. -/
theorem splitFrame?_append {s rest : Bytes} {frame : FrameHeader × Bytes}
    (hs : splitFrame? s = some (frame, rest)) (t : Bytes) :
    splitFrame? (s ++ t) = some (frame, rest ++ t) := by
  obtain ⟨h, payload⟩ := frame
  obtain ⟨rfl, hlength⟩ := splitFrame?_eq_some hs
  rw [List.append_assoc, splitFrame?_frameBytes_append hlength]

/-- Before a frame is complete, it was not complete with fewer bytes. -/
theorem splitFrame?_eq_none_of_append {s t : Bytes} (hs : splitFrame? (s ++ t) = none) :
    splitFrame? s = none := by
  cases h : splitFrame? s with
  | none => rfl
  | some entry =>
    rw [splitFrame?_append h] at hs
    cases hs

/-! ### All frames -/

theorem splitFrames_of_none {s : Bytes} (hs : splitFrame? s = none) : splitFrames s = ([], s) := by
  rw [splitFrames]
  split
  · rfl
  · rename_i h
    rw [hs] at h
    cases h

theorem splitFrames_of_some {s rest : Bytes} {frame : FrameHeader × Bytes}
    (hs : splitFrame? s = some (frame, rest)) :
    splitFrames s = (frame :: (splitFrames rest).1, (splitFrames rest).2) := by
  rw [splitFrames]
  split
  · rename_i h
    rw [hs] at h
    cases h
  · rename_i h
    rw [hs] at h
    cases h
    rfl

/-- The frames of a byte string and what is left make it up, and what is left has no further
frame. -/
theorem flatten_splitFrames (s : Bytes) :
    ((splitFrames s).1.map frameBytes).flatten ++ (splitFrames s).2 = s ∧
      splitFrame? (splitFrames s).2 = none := by
  fun_induction splitFrames s with
  | case1 s hs => exact ⟨rfl, hs⟩
  | case2 s frame rest hs more ih =>
    obtain ⟨h, payload⟩ := frame
    refine ⟨?_, ih.2⟩
    rw [List.map_cons, List.flatten_cons, List.append_assoc, ih.1]
    exact (splitFrame?_eq_some hs).1.symm

/-- Each frame of a byte string is as long as its header tells. -/
theorem length_of_mem_splitFrames {s payload : Bytes} {h : FrameHeader}
    (hmem : (h, payload) ∈ (splitFrames s).1) : payload.length = h.payloadLen.toNat := by
  fun_induction splitFrames s with
  | case1 s hs => exact absurd hmem List.not_mem_nil
  | case2 s frame rest hs more ih =>
    rcases List.mem_cons.mp hmem with rfl | hmem
    · exact (splitFrame?_eq_some hs).2
    · exact ih hmem

/-- A byte string is some frames, one after the other and each as long as its header tells, and
bytes behind them that are too few for one more frame. -/
structure Framed (s : Bytes) (frames : List (FrameHeader × Bytes)) (rest : Bytes) : Prop where
  bytes : s = (frames.map frameBytes).flatten ++ rest
  complete : ∀ frame ∈ frames, frame.2.length = frame.1.payloadLen.toNat
  incomplete : ∀ header, FrameHeader.peek? rest = some header → rest.length < header.frameLen

/-- Bytes do not start with a complete frame just if they are too few for a header, or for the
payload that it tells. -/
theorem splitFrame?_eq_none_iff {s : Bytes} :
    splitFrame? s = none ↔
      ∀ header, FrameHeader.peek? s = some header → s.length < header.frameLen := by
  unfold splitFrame?
  cases hpeek : FrameHeader.peek? s with
  | none => simp
  | some header =>
    have hlength : s.length = headerSize + (s.drop headerSize).length := by
      conv_lhs => rw [FrameHeader.peek?_eq_some hpeek]
      rw [List.length_append, FrameHeader.length_encode]
    simp only [takeExactly?_eq, Option.some.injEq, forall_eq', FrameHeader.frameLen]
    by_cases hle : header.payloadLen.toNat ≤ (s.drop headerSize).length
    · simp only [if_pos hle, reduceCtorEq, false_iff, not_lt]
      omega
    · simp only [if_neg hle, true_iff]
      omega

/-- A byte string is cut into complete frames and what is left over in one way only. -/
theorem framed_iff {s rest : Bytes} {frames : List (FrameHeader × Bytes)} :
    Framed s frames rest ↔ splitFrames s = (frames, rest) := by
  constructor
  · intro h
    induction frames generalizing s with
    | nil =>
      obtain ⟨rfl, -, hrest⟩ := h
      exact splitFrames_of_none (splitFrame?_eq_none_iff.mpr hrest)
    | cons frame frames ih =>
      obtain ⟨rfl, hcomplete, hrest⟩ := h
      rw [List.forall_mem_cons] at hcomplete
      have htail := ih ⟨rfl, hcomplete.2, hrest⟩
      obtain ⟨header, payload⟩ := frame
      rw [List.map_cons, List.flatten_cons, List.append_assoc,
        splitFrames_of_some (splitFrame?_frameBytes_append hcomplete.1 _), htail]
  · intro h
    obtain ⟨hbytes, hnone⟩ := flatten_splitFrames s
    have hcomplete : ∀ frame ∈ (splitFrames s).1, frame.2.length = frame.1.payloadLen.toNat :=
      fun frame hmem => length_of_mem_splitFrames hmem
    rw [h] at hbytes hnone hcomplete
    exact ⟨hbytes.symm, hcomplete, splitFrame?_eq_none_iff.mp hnone⟩

/-- A frame by itself is read as it is in a longer byte string. -/
theorem Catalogue.decode_frameBytes_append (c : Catalogue) {h : FrameHeader} {payload : Bytes}
    (hlength : payload.length = h.payloadLen.toNat) (rest : Bytes) :
    c.decode (frameBytes (h, payload) ++ rest) = c.decodeFrame h payload := by
  rw [decode, splitFrame?_frameBytes_append hlength]

end WireSchema
