import Mathlib
import WireSchema.Proofs.Recording.Items
import WireSchema.Proofs.Recording.Metadata
import WireSchema.Proofs.Wire.RoundTrip
import WireSchema.Proofs.Wire.Stream
import WireSchema.Recording.Binary

/-!
# Binary recordings are read back

A recording that was written is opened with its metadata, and the messages in it are those whose
writing succeeded, in order. The reader takes the bytes in pieces of any length; what it has not yet
used, in its buffer and still to arrive, is the invariant that carries it from frame to frame.

* `BinaryReader.left` — the bytes that a reader has not used;
* `BinaryReader.next_of_splitFrame?`, `BinaryReader.yields_leftover` — one item, and the end;
* `BinaryReader.yields_frames` — all items, whatever the bytes are;
* `BinaryWriter.writeMessages` — messages written one after the other, with the answer to each;
* `BinaryReader.yields_of_encode` — frames that were written are read back;
* `BinaryReader.yields_writeMessages` — so are whole recordings.
-/

namespace WireSchema

/-! ### One call of a reader -/

namespace BinaryReader

variable {c : Catalogue} {r : BinaryReader}

/-- The bytes that a reader has not used: those in its buffer and those that are still to arrive. -/
def left (r : BinaryReader) : Bytes :=
  r.buffer.bytes ++ r.input.flatten

/-- Once a frame is complete, its message is read, and the bytes after it are left. -/
theorem readFrom_of_splitFrame? (done : Bool) {buffer : FrameBuffer} {pieces : List Bytes}
    {frame : FrameHeader × Bytes} {rest : Bytes}
    (h : splitFrame? (buffer.bytes ++ pieces.flatten) = some (frame, rest)) :
    ∃ r', readFrom c done buffer pieces = ((c.decode (frameBytes frame)).map some, r') ∧
      r'.done = done ∧ r'.left = rest := by
  obtain ⟨header, payload⟩ := frame
  induction pieces generalizing buffer with
  | nil =>
    rw [List.flatten_nil, List.append_nil] at h
    refine ⟨⟨⟨rest⟩, [], done⟩, ?_, rfl, List.append_nil _⟩
    rw [readFrom, FrameBuffer.decode_of_some h]
    cases c.decode (frameBytes (header, payload)) <;> rfl
  | cons piece pieces ih =>
    cases hsplit : splitFrame? buffer.bytes with
    | none =>
      have hextend : readFrom c done buffer (piece :: pieces)
          = readFrom c done (buffer.extend piece) pieces := by
        rw [readFrom, FrameBuffer.decode_of_none hsplit]
      rw [hextend]
      refine ih ?_
      rw [List.flatten_cons, ← List.append_assoc] at h
      exact h
    | some entry =>
      -- The frame was complete before the piece arrived, so that the piece is left as it is.
      obtain ⟨⟨header', payload'⟩, rest'⟩ := entry
      rw [splitFrame?_append hsplit] at h
      cases h
      refine ⟨⟨⟨rest'⟩, piece :: pieces, done⟩, ?_, rfl, rfl⟩
      rw [readFrom, FrameBuffer.decode_of_some hsplit]
      cases c.decode (frameBytes (header, payload)) <;> rfl

/-- Without a complete frame all pieces are taken into the buffer, and the stream ends with them. -/
theorem readFrom_of_splitFrame?_none (done : Bool) {buffer : FrameBuffer} {pieces : List Bytes}
    (h : splitFrame? (buffer.bytes ++ pieces.flatten) = none) :
    ∃ r', readFrom c done buffer pieces
        = ((FrameBuffer.finish ⟨buffer.bytes ++ pieces.flatten⟩).1.map fun _ => none, r') ∧
      r'.done = true := by
  have hbuffer : buffer.decode c = (.ok none, buffer) :=
    FrameBuffer.decode_of_none (splitFrame?_eq_none_of_append h)
  induction pieces generalizing buffer with
  | nil =>
    rw [List.flatten_nil, List.append_nil]
    refine ⟨⟨buffer.finish.2, [], true⟩, ?_, rfl⟩
    rw [readFrom, hbuffer]
  | cons piece pieces ih =>
    rw [List.flatten_cons, ← List.append_assoc] at h ⊢
    rw [readFrom, hbuffer]
    exact @ih (buffer.extend piece) h (FrameBuffer.decode_of_none (splitFrame?_eq_none_of_append h))

/-- While a complete frame is left, it gives the next item. -/
theorem next_of_splitFrame? (hdone : r.done = false) {frame : FrameHeader × Bytes} {rest : Bytes}
    (h : splitFrame? r.left = some (frame, rest)) :
    ∃ r', r.next c = (some (c.decode (frameBytes frame)), r') ∧ r'.done = false ∧
      r'.left = rest := by
  obtain ⟨r', hread, hdone', hleft⟩ := readFrom_of_splitFrame? (c := c) r.done h
  refine ⟨r', ?_, hdone'.trans hdone, hleft⟩
  rw [next, hdone, read, hread]
  cases c.decode (frameBytes frame) <;> rfl

/-- The item for bytes behind the last complete frame, if there are any. -/
def leftover : Bytes → List (Except WireError Message)
  | [] => []
  | s => [.error (incompleteFrame s)]

theorem results_leftover (s : Bytes) : results (leftover s) = [] := by
  cases s <;> rfl

theorem errorCount_leftover (s : Bytes) : errorCount (leftover s) = if s = [] then 0 else 1 := by
  cases s with
  | nil => rfl
  | cons b s => rw [if_neg (List.cons_ne_nil b s)]; rfl

theorem next_of_done (hdone : r.done = true) : r.next c = (none, r) := by
  rw [next, if_pos hdone]

/-- Behind the last complete frame the end is reported, after an error if bytes are left over. -/
theorem yields_leftover (hdone : r.done = false) (h : splitFrame? r.left = none) :
    Yields (next c) r (leftover r.left) := by
  obtain ⟨r', hread, hdone'⟩ := readFrom_of_splitFrame?_none (c := c) r.done h
  have hagain : r'.next c = (none, r') := next_of_done hdone'
  have hnext : ∀ result, FrameBuffer.finish ⟨r.left⟩ = result →
      r.next c = match result.1 with
        | .ok () => (none, r')
        | .error e => (some (.error e), r') := by
    rintro ⟨result, buffer⟩ hfinish
    rw [next, if_neg (by rw [hdone]; exact Bool.false_ne_true), read, hread,
      show (FrameBuffer.finish ⟨r.buffer.bytes ++ r.input.flatten⟩) = _ from hfinish]
    cases result <;> rfl
  cases hleft : r.left with
  | nil =>
    rw [hleft] at hnext
    exact .atEnd (hnext _ rfl) hagain
  | cons b s =>
    rw [hleft] at hnext
    exact .item (hnext _ rfl) (.atEnd hagain hagain)

/-! ### All calls of a reader -/

variable {version : String} {decls : List MessageDecl}

/-- The items of a reader are what the complete frames that are left give, and an error if bytes are
left over behind them. -/
theorem yields_frames (hdone : r.done = false) :
    Yields (next c) r (c.decodeAll r.left ++ leftover (splitFrames r.left).2) := by
  induction hn : r.left.length using Nat.strong_induction_on generalizing r with
  | h n ih =>
    cases hsplit : splitFrame? r.left with
    | none =>
      rw [Catalogue.decodeAll, splitFrames_of_none hsplit]
      exact yields_leftover hdone hsplit
    | some entry =>
      obtain ⟨frame, rest⟩ := entry
      obtain ⟨r', hnext, hdone', hleft⟩ := next_of_splitFrame? (c := c) hdone hsplit
      have hlt : r'.left.length < n := by
        rw [hleft, ← hn]
        exact length_of_splitFrame? hsplit
      have hrest := ih _ hlt hdone' rfl
      rw [hleft] at hrest
      rw [Catalogue.decodeAll, splitFrames_of_some hsplit]
      exact .item hnext hrest

/-- The frame of a message is split off whatever follows it, and the message is read from it. -/
theorem exists_frame_of_encode (hc : Catalogue.ofDecls version decls = .ok c) {msg : Message}
    (hbool : c.HoldsBools msg) {s : Bytes} (h : c.encode msg = .ok s) (rest : Bytes) :
    ∃ frame, splitFrame? (s ++ rest) = some (frame, rest) ∧
      c.decode (frameBytes frame) = .ok msg := by
  obtain ⟨m, payload, hm, hpayload, rfl⟩ := Catalogue.encode_eq_ok h
  have hlength := MessageDef.length_of_writePayload hpayload
  have hl := Catalogue.wellFormed_of_mem hc (Catalogue.byId?_eq_some hm).1
  have hread := MessageDef.readPayload_of_writePayload hl (hbool m hm) hpayload
  refine ⟨_, splitFrame?_frameBytes_append hlength rest, ?_⟩
  rw [← List.append_nil (frameBytes _), c.decode_frameBytes_append hlength]
  simp only [Catalogue.decodeFrame, hm, hread]

/-- The items of a reader are no more than its bytes. -/
theorem length_items_le (s : Bytes) :
    (c.decodeAll s ++ leftover (splitFrames s).2).length ≤ s.length := by
  induction hn : s.length using Nat.strong_induction_on generalizing s with
  | h n ih =>
    cases hsplit : splitFrame? s with
    | none =>
      rw [Catalogue.decodeAll, splitFrames_of_none hsplit]
      cases s with
      | nil => exact Nat.zero_le _
      | cons b s =>
        rw [← hn]
        exact Nat.succ_le_succ (Nat.zero_le _)
    | some entry =>
      obtain ⟨frame, rest⟩ := entry
      have hlt := length_of_splitFrame? hsplit
      have hrest := ih rest.length (hn ▸ hlt) rest rfl
      rw [Catalogue.decodeAll, splitFrames_of_some hsplit]
      exact Nat.lt_of_le_of_lt hrest (hn ▸ hlt)

/-- The frames of messages are the complete frames of their bytes, and nothing is left over. -/
theorem decodeAll_of_encode (hc : Catalogue.ofDecls version decls = .ok c) {msgs : List Message}
    {frames : List Bytes} (hframes : List.Forall₂ (fun msg s => c.encode msg = .ok s) msgs frames)
    (hbool : ∀ msg ∈ msgs, c.HoldsBools msg) :
    c.decodeAll frames.flatten = msgs.map .ok ∧ (splitFrames frames.flatten).2 = [] := by
  induction hframes with
  | nil =>
    have hnone : splitFrame? [] = none := rfl
    rw [Catalogue.decodeAll, List.flatten_nil, splitFrames_of_none hnone]
    exact ⟨rfl, rfl⟩
  | @cons msg s msgs frames hs _ ih =>
    rw [List.forall_mem_cons] at hbool
    obtain ⟨frame, hsplit, hread⟩ := exists_frame_of_encode hc hbool.1 hs frames.flatten
    obtain ⟨hall, hleft⟩ := ih hbool.2
    rw [List.flatten_cons, Catalogue.decodeAll, splitFrames_of_some hsplit, List.map_cons, hread]
    exact ⟨congrArg _ hall, hleft⟩

/-- The frames of messages give these messages, however their bytes arrive. -/
theorem yields_of_encode (hc : Catalogue.ofDecls version decls = .ok c) {msgs : List Message}
    {frames : List Bytes} (hframes : List.Forall₂ (fun msg s => c.encode msg = .ok s) msgs frames)
    (hbool : ∀ msg ∈ msgs, c.HoldsBools msg) (hdone : r.done = false)
    (hleft : r.left = frames.flatten) : Yields (next c) r (msgs.map .ok) := by
  have hyields := yields_frames (c := c) hdone
  obtain ⟨hall, hrest⟩ := decodeAll_of_encode hc hframes hbool
  rw [hleft, hall, hrest] at hyields
  rwa [show leftover [] = [] from rfl, List.append_nil] at hyields

end BinaryReader

/-! ### Writing -/

namespace BinaryWriter

variable {c : Catalogue}

/-- Writes messages one after the other; the answer to each stands beside it. -/
def writeMessages (c : Catalogue) (w : BinaryWriter) :
    List Message → List (Message × Except RecordingError Unit) × BinaryWriter
  | [] => ([], w)
  | msg :: rest =>
    let (answer, w) := w.writeMessage c msg
    let (answers, w) := writeMessages c w rest
    ((msg, answer) :: answers, w)

/-- The messages whose writing succeeded. -/
def written (answers : List (Message × Except RecordingError Unit)) : List Message :=
  (answers.filter fun entry => entry.2.isOk).map Prod.fst

theorem writeMessage_of_ok {msg : Message} {s : Bytes} (w : BinaryWriter)
    (h : c.encode msg = .ok s) : w.writeMessage c msg = (.ok (), ⟨w.output ++ s⟩) := by
  rw [writeMessage, binaryMessage, h]
  rfl

theorem writeMessage_of_error {msg : Message} {e : WireError} (w : BinaryWriter)
    (h : c.encode msg = .error e) : w.writeMessage c msg = (.error (.wire e), w) := by
  rw [writeMessage, binaryMessage, h]
  rfl

/-- What is written are the frames of the messages whose writing succeeded, one after the other. -/
theorem writeMessages_output (w : BinaryWriter) (msgs : List Message) :
    ∃ frames, List.Forall₂ (fun msg s => c.encode msg = .ok s)
        (written (w.writeMessages c msgs).1) frames ∧
      (w.writeMessages c msgs).2.output = w.output ++ frames.flatten := by
  induction msgs generalizing w with
  | nil => exact ⟨[], .nil, (List.append_nil _).symm⟩
  | cons msg msgs ih =>
    cases h : c.encode msg with
    | ok s =>
      obtain ⟨frames, hframes, houtput⟩ := ih ⟨w.output ++ s⟩
      rw [writeMessages, writeMessage_of_ok w h]
      refine ⟨s :: frames, .cons h hframes, ?_⟩
      rw [List.flatten_cons, ← List.append_assoc]
      exact houtput
    | error e =>
      obtain ⟨frames, hframes, houtput⟩ := ih w
      rw [writeMessages, writeMessage_of_error w h]
      exact ⟨frames, hframes, houtput⟩

/-- Where every message can be written, all frames are there. -/
theorem writeMessages_of_encode (w : BinaryWriter) {msgs : List Message} {frames : List Bytes}
    (h : List.Forall₂ (fun msg s => c.encode msg = .ok s) msgs frames) :
    (w.writeMessages c msgs).2.output = w.output ++ frames.flatten := by
  induction h generalizing w with
  | nil => exact (List.append_nil _).symm
  | @cons msg s msgs frames hs _ ih =>
    rw [writeMessages, writeMessage_of_ok w hs, List.flatten_cons, ← List.append_assoc]
    exact ih ⟨w.output ++ s⟩

/-- Every message is answered, in order. -/
theorem map_fst_writeMessages (w : BinaryWriter) (msgs : List Message) :
    (w.writeMessages c msgs).1.map Prod.fst = msgs := by
  induction msgs generalizing w with
  | nil => rfl
  | cons msg msgs ih =>
    rw [writeMessages, List.map_cons, ih]

theorem mem_of_mem_written {w : BinaryWriter} {msgs : List Message} {msg : Message}
    (h : msg ∈ written (w.writeMessages c msgs).1) : msg ∈ msgs := by
  obtain ⟨entry, hentry, rfl⟩ := List.mem_map.mp h
  rw [← map_fst_writeMessages (c := c) w msgs]
  exact List.mem_map_of_mem (List.mem_of_mem_filter hentry)

end BinaryWriter

/-! ### Headers -/

theorem binaryHeader_eq {m : Metadata} (h : m.encode.length ≤ 0xffff) :
    binaryHeader m = .ok (magic ++ ByteWidth.two.put m.encode.length ++ m.encode) :=
  if_neg (Nat.not_lt.mpr h)

theorem binaryHeader_eq_ok {m : Metadata} {header : Bytes} (h : binaryHeader m = .ok header) :
    m.encode.length ≤ 0xffff ∧
      header = magic ++ ByteWidth.two.put m.encode.length ++ m.encode := by
  have hshort : m.encode.length ≤ 0xffff := by
    by_contra hlong
    rw [binaryHeader, if_pos (Nat.not_le.mp hlong)] at h
    cases h
  rw [binaryHeader_eq hshort] at h
  exact ⟨hshort, (Except.ok.inj h).symm⟩

theorem requireBytes_append (s rest : Bytes) :
    requireBytes s.length (s ++ rest) = .ok (s, rest) := by
  have hle : s.length ≤ (s ++ rest).length := by
    rw [List.length_append]
    exact Nat.le_add_right _ _
  rw [requireBytes, takeExactly?_eq, if_pos hle, List.take_left, List.drop_left]

/-- A header is read back, and what follows it is left. -/
theorem readBinaryHeader_append {m : Metadata} (h : m.encode.length ≤ 0xffff) (rest : Bytes) :
    readBinaryHeader (magic ++ ByteWidth.two.put m.encode.length ++ m.encode ++ rest)
      = .ok (m, rest) := by
  have hlength : m.encode.length % ByteWidth.two.capacity = m.encode.length :=
    Nat.mod_eq_of_lt (Nat.lt_succ_of_le h)
  simp only [readBinaryHeader, List.append_assoc, requireBytes_append, bind, Except.bind, ne_eq,
    not_true_eq_false, if_false, ByteWidth.get?_put_append, hlength,
    Metadata.decode?_encode]

theorem requireBytes_eq_ok {n : ℕ} {s part rest : Bytes} (h : requireBytes n s = .ok (part, rest)) :
    s = part ++ rest ∧ part.length = n := by
  unfold requireBytes at h
  split at h
  · rename_i htake
    cases h
    rw [takeExactly?_eq] at htake
    split at htake
    · rename_i hle
      cases htake
      exact ⟨(List.take_append_drop n s).symm, List.length_take_of_le hle⟩
    · cases htake
  · cases h

/-- A header that was read stands at the front: the magic bytes, then a length and the metadata in
as many bytes. -/
theorem readBinaryHeader_eq_ok {s rest : Bytes} {m : Metadata}
    (h : readBinaryHeader s = .ok (m, rest)) :
    ∃ json, json.length ≤ 0xffff ∧
      s = magic ++ ByteWidth.two.put json.length ++ json ++ rest ∧
        Metadata.decode? json = some m := by
  rw [readBinaryHeader, bind_eq_ok] at h
  obtain ⟨⟨found, s₁⟩, hmagic, h⟩ := h
  simp only at h
  split at h
  · cases h
  rename_i hfound
  split at h
  · cases h
  rename_i length s₂ hlength
  obtain ⟨⟨json, s₃⟩, hjson, h⟩ := bind_eq_ok.mp h
  split at h
  · rename_i m' hm
    cases h
    obtain ⟨rfl, -⟩ := requireBytes_eq_ok hmagic
    obtain ⟨rfl, hjsonLength⟩ := requireBytes_eq_ok hjson
    obtain ⟨hlt, rfl⟩ := ByteWidth.get?_eq_some hlength
    refine ⟨json, ?_, ?_, hm⟩
    · rw [hjsonLength]
      exact Nat.le_of_lt_succ hlt
    · rw [not_not.mp hfound, hjsonLength]
      simp only [List.append_assoc]
  · cases h

/-- The header of a recording ends at one place only. -/
theorem header_unique {json json' rest rest' : Bytes} (hjson : json.length ≤ 0xffff)
    (hjson' : json'.length ≤ 0xffff)
    (h : magic ++ ByteWidth.two.put json.length ++ json ++ rest
      = magic ++ ByteWidth.two.put json'.length ++ json' ++ rest') :
    json = json' ∧ rest = rest' := by
  have hmod : ∀ n ≤ 0xffff, n % ByteWidth.two.capacity = n :=
    fun n hn => Nat.mod_eq_of_lt (Nat.lt_succ_of_le hn)
  simp only [List.append_assoc] at h
  have hget := congrArg ByteWidth.two.get? (List.append_cancel_left h)
  rw [ByteWidth.get?_put_append, ByteWidth.get?_put_append, hmod _ hjson, hmod _ hjson'] at hget
  obtain ⟨hlength, hbytes⟩ := Prod.mk.inj (Option.some.inj hget)
  exact List.append_inj hbytes hlength

/-- A recording is opened behind its header, at its first frame. -/
theorem BinaryReader.ofBytes_eq_ok {s : Bytes} {m : Metadata} {r : BinaryReader}
    (h : ofBytes s = .ok (m, r)) :
    r.done = false ∧ ∃ json, s = magic ++ ByteWidth.two.put json.length ++ json ++ r.left ∧
      Metadata.decode? json = some m := by
  rw [ofBytes, bind_eq_ok] at h
  obtain ⟨⟨m', rest⟩, hheader, h⟩ := h
  cases h
  have hleft : left ⟨.empty, [rest], false⟩ = rest := List.append_nil rest
  rw [hleft]
  obtain ⟨json, -, hs, hjson⟩ := readBinaryHeader_eq_ok hheader
  exact ⟨rfl, json, hs, hjson⟩

/-- A recording is opened behind its header. -/
theorem BinaryReader.ofBytes_append {m : Metadata} (h : m.encode.length ≤ 0xffff) (rest : Bytes) :
    ofBytes (magic ++ ByteWidth.two.put m.encode.length ++ m.encode ++ rest)
      = .ok (m, ⟨.empty, [rest], false⟩) := by
  rw [ofBytes, readBinaryHeader_append h]
  rfl

theorem BinaryWriter.writeHeader_empty {m : Metadata} (h : m.encode.length ≤ 0xffff) :
    empty.writeHeader m
      = (.ok (), ⟨magic ++ ByteWidth.two.put m.encode.length ++ m.encode⟩) := by
  rw [writeHeader, binaryHeader_eq h]
  rfl

/-! ### Recordings -/

variable {version : String} {decls : List MessageDecl} {c : Catalogue}

/-- A recording is opened with the metadata that it was written with, and gives the messages whose
writing succeeded and then its end, however its bytes arrive. A message that cannot be written adds
nothing, and neither does metadata that is too long. -/
theorem BinaryReader.yields_writeMessages (hc : Catalogue.ofDecls version decls = .ok c)
    (m : Metadata) {msgs : List Message} (hbool : ∀ msg ∈ msgs, c.HoldsBools msg) :
    (0xffff < m.encode.length → ∀ w : BinaryWriter,
        w.writeHeader m = (.error (.metadataTooLong m.encode.length), w)) ∧
      (m.encode.length ≤ 0xffff →
        let opened := BinaryWriter.empty.writeHeader m
        let run := opened.2.writeMessages c msgs
        opened.1 = .ok () ∧ run.1.map Prod.fst = msgs ∧
          (∀ (w : BinaryWriter) (msg : Message) (e : RecordingError),
            (w.writeMessage c msg).1 = .error e → (w.writeMessage c msg).2 = w) ∧
          ∃ r, ofBytes run.2.output = .ok (m, r) ∧
            ∀ pieces, pieces.flatten = r.input.flatten →
              Yields (next c) { r with input := pieces }
                ((BinaryWriter.written run.1).map .ok)) := by
  constructor
  · intro hlong w
    rw [BinaryWriter.writeHeader, binaryHeader, if_pos hlong]
    rfl
  · intro hshort opened run
    have hopened := BinaryWriter.writeHeader_empty hshort
    obtain ⟨frames, hframes, houtput⟩ := BinaryWriter.writeMessages_output (c := c) opened.2 msgs
    refine ⟨congrArg Prod.fst hopened, BinaryWriter.map_fst_writeMessages _ _, ?_, ?_⟩
    · intro w msg e he
      cases hencode : c.encode msg with
      | ok s =>
        rw [BinaryWriter.writeMessage_of_ok w hencode] at he
        cases he
      | error e => rw [BinaryWriter.writeMessage_of_error w hencode]
    · refine ⟨⟨.empty, [frames.flatten], false⟩, ?_, ?_⟩
      · show ofBytes (opened.2.writeMessages c msgs).2.output = _
        rw [houtput, show opened = _ from hopened, ofBytes_append hshort]
      · intro pieces hpieces
        refine yields_of_encode hc hframes
          (fun msg hmsg => hbool msg (BinaryWriter.mem_of_mem_written hmsg)) rfl ?_
        rw [left, hpieces]
        show [] ++ (frames.flatten ++ []) = frames.flatten
        rw [List.nil_append, List.append_nil]

/-- Of three messages the second has no values, so that it cannot be written. -/
def noteMessages : List Message :=
  [⟨7, 1, [.bool true, .int (-300), .text "é"]⟩, ⟨8, 1, []⟩,
    ⟨9, 1, [.bool false, .int 5, .text ""]⟩]

theorem holdsBools_noteMessages :
    ∀ msg ∈ noteMessages, Catalogue.noteCatalogue.HoldsBools msg := by
  have hnote : ∀ (userId : UInt8) (b : Bool) (n : ℤ) (s : String),
      Catalogue.noteCatalogue.HoldsBools ⟨userId, 1, [.bool b, .int n, .text s]⟩ := by
    intro userId b n s m hm
    cases hm
    intro p hp format hkind
    rcases List.mem_cons.mp hp with rfl | hp
    · exact ⟨b, rfl⟩
    rcases List.mem_cons.mp hp with rfl | hp
    · cases hkind
    · rw [List.mem_singleton.mp hp] at hkind
      cases hkind
  intro msg hmsg
  rcases List.mem_cons.mp hmsg with rfl | hmsg
  · exact hnote 7 true (-300) "é"
  rcases List.mem_cons.mp hmsg with rfl | hmsg
  · intro m hm p hp
    rw [List.zip_nil_right] at hp
    cases hp
  · rw [List.mem_singleton.mp hmsg]
    exact hnote 9 false 5 ""

/-- A recording of them, with one metadata text: two frames are in it. -/
def noteRecording : Bytes :=
  [0x44, 0x50, 0x52, 0x45, 0x43, 0, 0, 9, 0x7b, 0x22, 0x76, 0x22, 0x3a, 0x22, 0x31, 0x22, 0x7d,
    0, 5, 1, 7, 1, 0xfe, 0xd4, 0xc3, 0xa9, 0, 3, 1, 9, 0, 0, 5]

theorem BinaryReader.yields_noteRecording :
    ∃ r, ofBytes noteRecording = .ok (.ofPairs [("v", "1")], r) ∧
      ∀ pieces, pieces.flatten = r.input.flatten →
        Yields (next Catalogue.noteCatalogue) { r with input := pieces }
          [.ok ⟨7, 1, [.bool true, .int (-300), .text "é"]⟩,
            .ok ⟨9, 1, [.bool false, .int 5, .text ""]⟩] := by
  have hshort : (Metadata.ofPairs [("v", "1")]).encode.length ≤ 0xffff := by decide
  have houtput : ((BinaryWriter.empty.writeHeader (.ofPairs [("v", "1")])).2.writeMessages
      Catalogue.noteCatalogue noteMessages).2.output = noteRecording := by cbv
  obtain ⟨-, -, -, r, hopen, hyields⟩ :=
    (yields_writeMessages Catalogue.ofDecls_noteDecls (.ofPairs [("v", "1")])
      holdsBools_noteMessages).2 hshort
  rw [houtput] at hopen
  exact ⟨r, hopen, hyields⟩

end WireSchema
