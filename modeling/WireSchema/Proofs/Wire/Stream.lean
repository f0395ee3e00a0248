import Mathlib
import WireSchema.Proofs.Wire.RoundTrip
import WireSchema.Wire.Stream

/-!
# Streams of frames in pieces

How a stream is cut into pieces does not matter, nor when messages are asked for. The invariant is
that the frames of the bytes that have arrived are the ones that have been read, in order, and then
the complete ones in the buffer.

* `StreamStep` and `FrameBuffer.run` — a stream in steps: a piece arrives, or a message is asked
  for;
* `FrameBuffer.decode_eq` — what one request does;
* `FrameBuffer.run_invariant` — what any number of steps does;
* `FrameBuffer.run_empty` — what a stream gives from its start.
-/

namespace WireSchema

/-! ### Steps -/

/-- A step of a stream: a piece arrives, or a message is asked for. -/
inductive StreamStep where
  | extend (piece : Bytes)
  | decode

/-- The bytes that arrive in the course of steps. -/
def fed : List StreamStep → Bytes
  | [] => []
  | .extend piece :: steps => piece ++ fed steps
  | .decode :: steps => fed steps

/-- The answers to the requests of a stream, in order, and the buffer at the end. -/
def FrameBuffer.run (c : Catalogue) :
    FrameBuffer → List StreamStep → List (Except WireError (Option Message)) × FrameBuffer
  | b, [] => ([], b)
  | b, .extend piece :: steps => run c (b.extend piece) steps
  | b, .decode :: steps =>
    let rest := run c (b.decode c).2 steps
    ((b.decode c).1 :: rest.1, rest.2)

/-- The result that an answer gives: none while a frame is incomplete. -/
def result? : Except WireError (Option Message) → Option (Except WireError Message)
  | .ok none => none
  | .ok (some msg) => some (.ok msg)
  | .error e => some (.error e)

/-- What the complete frames of a byte string give, each read by itself. -/
def Catalogue.decodeAll (c : Catalogue) (s : Bytes) : List (Except WireError Message) :=
  (splitFrames s).1.map fun frame => c.decode (frameBytes frame)

namespace FrameBuffer

variable {c : Catalogue} {b : FrameBuffer}

/-! ### One step -/

theorem result?_map_some (r : Except WireError Message) : result? (r.map some) = some r := by
  cases r <;> rfl

theorem decode_of_none (h : splitFrame? b.bytes = none) : b.decode c = (.ok none, b) := by
  rw [decode, h]

theorem decode_of_some {header : FrameHeader} {payload rest : Bytes}
    (h : splitFrame? b.bytes = some ((header, payload), rest)) :
    b.decode c = ((c.decode (frameBytes (header, payload))).map some, ⟨rest⟩) := by
  have hframe := c.decode_frameBytes_append (splitFrame?_eq_some h).2 []
  rw [List.append_nil] at hframe
  rw [decode, h, hframe]

/-- Nothing is answered exactly while no frame is complete. -/
theorem decode_eq_none_iff : (b.decode c).1 = .ok none ↔ splitFrame? b.bytes = none := by
  constructor
  · intro h
    cases hsplit : splitFrame? b.bytes with
    | none => rfl
    | some entry =>
      obtain ⟨⟨header, payload⟩, rest⟩ := entry
      rw [decode_of_some hsplit] at h
      have hresult := result?_map_some (c.decode (frameBytes (header, payload)))
      rw [show (c.decode (frameBytes (header, payload))).map some = .ok none from h] at hresult
      cases hresult
  · intro h
    rw [decode_of_none h]

/-! ### All steps -/

/-- The frames of the bytes that were in the buffer or arrived are the ones that have been read, in
order, and then the complete ones in the buffer. -/
theorem run_invariant (c : Catalogue) (b : FrameBuffer) (steps : List StreamStep) :
    c.decodeAll (b.bytes ++ fed steps)
        = (run c b steps).1.filterMap result? ++ c.decodeAll (run c b steps).2.bytes ∧
      (splitFrames (b.bytes ++ fed steps)).2 = (splitFrames (run c b steps).2.bytes).2 := by
  induction steps generalizing b with
  | nil =>
    rw [fed, List.append_nil]
    exact ⟨rfl, rfl⟩
  | cons step steps ih =>
    cases step with
    | extend piece =>
      rw [fed, ← List.append_assoc]
      exact ih (b.extend piece)
    | decode =>
      rw [fed, run]
      cases hsplit : splitFrame? b.bytes with
      | none =>
        rw [decode_of_none hsplit]
        exact ih b
      | some entry =>
        obtain ⟨⟨header, payload⟩, rest⟩ := entry
        obtain ⟨hall, hleft⟩ := ih ⟨rest⟩
        have hframes := splitFrames_of_some (splitFrame?_append hsplit (fed steps))
        rw [decode_of_some hsplit, hframes]
        refine ⟨?_, hleft⟩
        simp only [List.filterMap_cons, result?_map_some, List.cons_append]
        rw [← hall, Catalogue.decodeAll, hframes]
        rfl

theorem run_append (c : Catalogue) (b : FrameBuffer) (steps more : List StreamStep) :
    (run c b (steps ++ more)).2 = (run c (run c b steps).2 more).2 := by
  induction steps generalizing b with
  | nil => rfl
  | cons step steps ih =>
    cases step with
    | extend piece => exact ih (b.extend piece)
    | decode => exact ih (b.decode c).2

/-- As many requests as there are complete frames leave none. -/
theorem drained (c : Catalogue) (b : FrameBuffer) :
    splitFrame? (run c b (List.replicate (splitFrames b.bytes).1.length .decode)).2.bytes
      = none := by
  generalize hn : (splitFrames b.bytes).1.length = n
  induction n generalizing b with
  | zero =>
    cases hsplit : splitFrame? b.bytes with
    | none => exact hsplit
    | some entry =>
      rw [splitFrames_of_some hsplit] at hn
      cases hn
  | succ n ih =>
    rw [List.replicate_succ, run]
    cases hsplit : splitFrame? b.bytes with
    | none =>
      rw [splitFrames_of_none hsplit] at hn
      cases hn
    | some entry =>
      obtain ⟨⟨header, payload⟩, rest⟩ := entry
      rw [splitFrames_of_some hsplit] at hn
      rw [decode_of_some hsplit]
      exact ih ⟨rest⟩ (Nat.succ.inj hn)

/-- A stream ends with an error exactly when bytes are left. -/
theorem finish_eq_error_iff : (∃ e, b.finish.1 = .error e) ↔ b.bytes.length ≠ 0 := by
  unfold finish
  cases b.bytes with
  | nil =>
    refine ⟨fun ⟨e, he⟩ => ?_, fun hne => absurd rfl hne⟩
    cases he
  | cons byte s => exact ⟨fun _ => Nat.succ_ne_zero _, fun _ => ⟨_, rfl⟩⟩

/-! ### A stream from its start -/

/-- However the bytes of a stream arrive and whenever messages are asked for, they are cut into
frames in one way, and the results are the first of those that the complete frames give. They are
all of them once nothing is answered, which comes about by asking often enough; what is in the
buffer then are the bytes behind the last complete frame, and a stream that ends there ends with an
error exactly when there are any. A frame that cannot be read is used up by the request that reports
it. -/
theorem run_empty (c : Catalogue) (steps : List StreamStep) :
    (∃ frames rest, Framed (fed steps) frames rest) ∧
      ∀ frames rest, Framed (fed steps) frames rest →
        let results := frames.map fun frame => c.decode (frameBytes frame)
        let answers := (run c empty steps).1
        let b := (run c empty steps).2
        answers.filterMap result? <+: results ∧
          ((b.decode c).1 = .ok none →
            answers.filterMap result? = results ∧ (b.decode c).2 = b ∧ b.bytes = rest ∧
              ((∃ e, b.finish.1 = .error e) ↔ rest.length ≠ 0)) ∧
          (∃ n, ((run c empty (steps ++ List.replicate n .decode)).2.decode c).1 = .ok none) ∧
          ∀ e b', b.decode c = (.error e, b') →
            ∃ header payload, b.bytes = frameBytes (header, payload) ++ b'.bytes ∧
              payload.length = header.payloadLen.toNat ∧
              c.decode (frameBytes (header, payload)) = .error e := by
  refine ⟨⟨_, _, framed_iff.mpr rfl⟩, ?_⟩
  intro frames rest hframed results answers b
  have hsplitFrames := framed_iff.mp hframed
  have hresults : c.decodeAll (fed steps) = results := by
    rw [Catalogue.decodeAll, hsplitFrames]
  obtain ⟨hall, hleft⟩ := run_invariant c empty steps
  replace hall : c.decodeAll (fed steps) = answers.filterMap result? ++ c.decodeAll b.bytes := hall
  replace hleft : (splitFrames (fed steps)).2 = (splitFrames b.bytes).2 := hleft
  rw [hresults] at hall
  rw [hsplitFrames] at hleft
  refine ⟨⟨_, hall.symm⟩, ?_, ?_, ?_⟩
  · intro hnone
    have hsplit := decode_eq_none_iff.mp hnone
    have hframes : splitFrames b.bytes = ([], b.bytes) := splitFrames_of_none hsplit
    have hrest : b.bytes = rest := by
      rw [hframes] at hleft
      exact hleft.symm
    refine ⟨?_, by rw [decode_of_none hsplit], hrest, ?_⟩
    · rw [hall, Catalogue.decodeAll, hframes, List.map_nil, List.append_nil]
    · rw [finish_eq_error_iff, hrest]
  · refine ⟨(splitFrames b.bytes).1.length, ?_⟩
    rw [decode_eq_none_iff, run_append]
    exact drained c b
  · intro e b' hdecode
    cases hsplit : splitFrame? b.bytes with
    | none =>
      rw [decode_of_none hsplit] at hdecode
      cases hdecode
    | some entry =>
      obtain ⟨⟨header, payload⟩, tail⟩ := entry
      rw [decode_of_some hsplit] at hdecode
      obtain ⟨hresult, rfl⟩ := Prod.mk.inj hdecode
      obtain ⟨hbytes, hlength⟩ := splitFrame?_eq_some hsplit
      refine ⟨header, payload, hbytes, hlength, ?_⟩
      cases hframe : c.decode (frameBytes (header, payload)) with
      | ok msg =>
        rw [hframe] at hresult
        cases hresult
      | error e' =>
        rw [hframe] at hresult
        cases hresult
        rfl

/-- A message, a frame of no type and three bytes of another frame, in pieces, with requests among
them. -/
def noteSteps : List StreamStep :=
  [.extend [0, 5, 1, 7, 1], .decode, .extend [0xfe, 0xd4, 0xc3, 0xa9, 0, 1, 9, 7, 0xff, 0], .decode,
    .extend [5, 2], .decode, .decode]

theorem run_empty_noteSteps :
    let outcome := run Catalogue.noteCatalogue empty noteSteps
    outcome.1.filterMap result?
        = [.ok ⟨7, 1, [.bool true, .int (-300), .text "é"]⟩, .error ⟨7, 9, 1, .unknownType⟩] ∧
      outcome.2.bytes = [0, 5, 2] ∧ ∃ e, outcome.2.finish.1 = .error e := by
  intro outcome
  have hframed : Framed (fed noteSteps)
      [(⟨5, 1, 7⟩, [1, 0xfe, 0xd4, 0xc3, 0xa9]), (⟨1, 9, 7⟩, [0xff])] [0, 5, 2] :=
    ⟨rfl, by decide, fun _ hpeek => nomatch hpeek⟩
  have hfirst : Catalogue.noteCatalogue.decode
      (frameBytes (⟨5, 1, 7⟩, [1, 0xfe, 0xd4, 0xc3, 0xa9]))
        = .ok ⟨7, 1, [.bool true, .int (-300), .text "é"]⟩ := by cbv
  have hsecond : Catalogue.noteCatalogue.decode (frameBytes (⟨1, 9, 7⟩, [0xff]))
      = .error ⟨7, 9, 1, .unknownType⟩ := by cbv
  have hnone : (outcome.2.decode Catalogue.noteCatalogue).1 = .ok none := by cbv
  obtain ⟨-, hall, -⟩ := (run_empty Catalogue.noteCatalogue noteSteps).2 _ _ hframed
  obtain ⟨hresults, -, hrest, hfinish⟩ := hall hnone
  rw [List.map_cons, List.map_singleton, hfirst, hsecond] at hresults
  exact ⟨hresults, hrest, hfinish.mpr (by decide)⟩

end FrameBuffer

end WireSchema
