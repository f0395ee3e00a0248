import Mathlib
import WireSchema.Proofs.Recording.Binary
import WireSchema.Proofs.Recording.Lines
import WireSchema.Proofs.Wire.Acceptance

/-!
# Readers that are called in two ways

A reader of a recording is called for the next item of its iteration, or for the next message. The
two may be mixed: on every reader that an opened recording leads to, both calls do the same. For
frames this is so because the end leaves nothing behind, neither in the buffer nor to arrive; for
lines, because a line of text is never refused as bytes. So the answers are the items of the
iteration, one for each call, and the end for all calls behind the last item.

* `answers`, `answers_of_yields` — calls one after the other, and what they answer;
* `BinaryReader.next_eq_read`, `BinaryReader.answers_framed` — a reader of frames;
* `TextReader.lineByLine` — what one reader of lines gives, line by line;
* `TextReader.next_eq_read`, `TextReader.answers_lineByLine` — a reader of lines.
-/

namespace WireSchema

open WireSchema.Text

/-! ### Calls and answers -/

/-- A call of a reader: for the next item of its iteration, or for the next message. -/
inductive ReaderCall where
  | next
  | read

/-- The item of an answer that may be an error; there is none at the end. -/
def item? {ε α : Type} : Except ε (Option α) → Option (Except ε α)
  | .ok none => none
  | .ok (some a) => some (.ok a)
  | .error e => some (.error e)

section Answers

variable {ρ ε α : Type} {next : ρ → Option (Except ε α) × ρ} {read : ρ → Except ε (Option α) × ρ}
  {r : ρ} {items : List (Except ε α)}

/-- What a call of a reader answers, and the reader behind it. -/
def callOf (next : ρ → Option (Except ε α) × ρ) (read : ρ → Except ε (Option α) × ρ)
    (a : ReaderCall) (r : ρ) : Option (Except ε α) × ρ :=
  match a with
  | .next => next r
  | .read => (item? (read r).1, (read r).2)

/-- The answers of a reader to calls, one after the other. -/
def answers (next : ρ → Option (Except ε α) × ρ) (read : ρ → Except ε (Option α) × ρ) (r : ρ) :
    List ReaderCall → List (Option (Except ε α))
  | [] => []
  | a :: calls =>
    (callOf next read a r).1 :: answers next read (callOf next read a r).2 calls

/-- Where both calls do the same, they are answered by the items in order, and by the end behind the
last one. -/
theorem answers_of_yields {P : ρ → Prop}
    (hsame : ∀ r, P r → next r = (item? (read r).1, (read r).2)) (hkeep : ∀ r, P r → P (next r).2)
    (hr : P r) (h : Yields next r items) (calls : List ReaderCall) :
    answers next read r calls = (List.range calls.length).map fun i => items[i]? := by
  induction calls generalizing r items with
  | nil => rfl
  | cons a calls ih =>
    have hcall : callOf next read a r = next r := by
      cases a with
      | next => rfl
      | read => exact (hsame r hr).symm
    have hkept := hkeep r hr
    rw [answers, hcall, List.length_cons, List.range_succ_eq_map, List.map_cons, List.map_map]
    cases h with
    | atEnd hnext hagain =>
      rw [hnext] at hkept ⊢
      rw [ih hkept (.atEnd hagain hagain)]
      rfl
    | item hnext hrest =>
      rw [hnext] at hkept ⊢
      rw [ih hkept hrest]
      rfl

end Answers

/-! ### Readers of frames -/

/-- Ending a stream empties its buffer. -/
theorem FrameBuffer.finish_snd (b : FrameBuffer) : b.finish.2 = empty := by
  obtain ⟨bytes⟩ := b
  cases bytes <;> rfl

namespace BinaryReader

variable {c : Catalogue} {r : BinaryReader}

/-- A reader that has seen the end has nothing left. -/
def Settled (r : BinaryReader) : Prop :=
  r.done = true → r = ⟨.empty, [], true⟩

theorem settled_of_not_done (h : r.done = false) : r.Settled := by
  intro hdone
  rw [h] at hdone
  cases hdone

/-- The end is only seen when all pieces have arrived and the buffer is emptied. -/
theorem readFrom_settled (buffer : FrameBuffer) (pieces : List Bytes) :
    (readFrom c false buffer pieces).2.Settled := by
  induction pieces generalizing buffer with
  | nil =>
    unfold readFrom
    split
    · intro _
      simp only [FrameBuffer.finish_snd]
    · exact settled_of_not_done rfl
  | cons piece pieces ih =>
    rw [readFrom]
    split
    · exact ih _
    · exact settled_of_not_done rfl

/-- A reader stays settled from call to call. -/
theorem next_settled (h : r.Settled) : (r.next c).2.Settled := by
  unfold next
  split
  · exact h
  · rename_i hdone
    have hread : (r.read c).2.Settled := by
      rw [read, Bool.eq_false_iff.mpr hdone]
      exact readFrom_settled _ _
    split <;> rename_i heq <;> rw [heq] at hread <;> exact hread

/-- A settled reader gives the message that it reads as the next item. -/
theorem next_eq_read (h : r.Settled) : r.next c = (item? (r.read c).1, (r.read c).2) := by
  unfold next
  split
  · rename_i hdone
    rw [h hdone]
    rfl
  · rcases r.read c with ⟨_ | _ | msg, r'⟩ <;> rfl

/-- Bytes are too few for a frame because they are too few for a header, or for the payload. -/
theorem fault_incompleteFrame (s : Bytes) :
    (incompleteFrame s).fault = if s.length < 4 then .headerTooShort else .truncated := by
  match s with
  | [] | [_] | [_, _] | [_, _, _] => rfl
  | a :: b :: type :: userId :: more =>
    have hlong : ¬(a :: b :: type :: userId :: more).length < 4 :=
      Nat.not_lt.mpr (Nat.le_add_left 4 more.length)
    rw [if_neg hlong]
    rfl

/-- Bytes that are left over give one error. -/
theorem exists_leftover_eq (rest : Bytes) :
    ∃ last : Option WireError, leftover rest = last.toList.map .error ∧
      last.map WireError.fault = if rest = [] then none
        else if rest.length < 4 then some .headerTooShort else some .truncated := by
  cases rest with
  | nil => exact ⟨none, rfl, rfl⟩
  | cons b rest =>
    refine ⟨some (incompleteFrame (b :: rest)), rfl, ?_⟩
    rw [if_neg (List.cons_ne_nil _ _), Option.map_some, fault_incompleteFrame, apply_ite some]

/-- Whatever follows the header of a recording, however it arrives and whichever calls are made, the
answers are one item for each complete frame, then an error if bytes are left over, and then the
end. -/
theorem answers_framed (c : Catalogue) {s : Bytes} {m : Metadata} (h : ofBytes s = .ok (m, r)) :
    ∃ json body, json.length ≤ 0xffff ∧
      s = magic ++ ByteWidth.two.put json.length ++ json ++ body ∧ Metadata.decode? json = some m ∧
      (∃ frames rest, Framed body frames rest) ∧
      ∀ frames rest, Framed body frames rest → ∃ last : Option WireError,
        (last.map WireError.fault = if rest = [] then none
          else if rest.length < 4 then some .headerTooShort else some .truncated) ∧
        let items := frames.map (fun frame => c.decode (frameBytes frame))
          ++ last.toList.map .error
        items.length ≤ frames.length + 1 ∧
          ∀ pieces, pieces.flatten = body → ∀ calls,
            answers (next c) (read c) { r with input := pieces } calls
              = (List.range calls.length).map fun i => items[i]? := by
  rw [ofBytes, bind_eq_ok] at h
  obtain ⟨⟨m', body⟩, hheader, h⟩ := h
  cases h
  obtain ⟨json, hshort, hs, hjson⟩ := readBinaryHeader_eq_ok hheader
  refine ⟨json, body, hshort, hs, hjson, ⟨_, _, framed_iff.mpr rfl⟩, ?_⟩
  intro frames rest hframed
  obtain ⟨last, hleftover, hfault⟩ := exists_leftover_eq rest
  refine ⟨last, hfault, ?_, ?_⟩
  · rw [List.length_append, List.length_map, List.length_map]
    exact Nat.add_le_add_left (Option.length_toList_le) _
  · intro pieces hpieces calls
    have hleft : left ⟨.empty, pieces, false⟩ = body := hpieces
    have hyields := @yields_frames c ⟨.empty, pieces, false⟩ rfl
    rw [hleft, Catalogue.decodeAll, framed_iff.mp hframed, hleftover] at hyields
    exact answers_of_yields (fun _ => next_eq_read) (fun _ => next_settled)
      (settled_of_not_done rfl) hyields calls

/-- A message, a frame of no type, and three bytes of another frame. -/
def tornNotes : Bytes :=
  [0, 5, 1, 7, 1, 0xfe, 0xd4, 0xc3, 0xa9, 0, 1, 9, 7, 0xff, 0, 5, 2]

/-- The complete frames of `tornNotes`. -/
def tornFrames : List (FrameHeader × Bytes) :=
  [(⟨5, 1, 7⟩, [1, 0xfe, 0xd4, 0xc3, 0xa9]), (⟨1, 9, 7⟩, [0xff])]

theorem framed_tornNotes : Framed tornNotes tornFrames [0, 5, 2] where
  bytes := rfl
  complete := by decide
  incomplete := fun _ hpeek => nomatch hpeek

theorem answers_tornNotes :
    ∃ r e, ofBytes (magic ++ ByteWidth.two.put 2 ++ [0x7b, 0x7d] ++ tornNotes) = .ok (.empty, r) ∧
      e.fault = .headerTooShort ∧
      answers (next Catalogue.noteCatalogue) (read Catalogue.noteCatalogue)
          { r with
            input := [[0, 5], [1, 7, 1, 0xfe, 0xd4, 0xc3, 0xa9, 0], [1, 9, 7, 0xff, 0, 5, 2]] }
          [.read, .next, .next, .read, .next]
        = [some (.ok ⟨7, 1, [.bool true, .int (-300), .text "é"]⟩),
          some (.error ⟨7, 9, 1, .unknownType⟩), some (.error e), none, none] := by
  have hshort : Metadata.empty.encode.length ≤ 0xffff := by decide
  have hopen : ofBytes (magic ++ ByteWidth.two.put 2 ++ [0x7b, 0x7d] ++ tornNotes)
      = .ok (.empty, ⟨.empty, [tornNotes], false⟩) := ofBytes_append hshort tornNotes
  obtain ⟨json, body, hjson, hs, -, -, hframes⟩ := answers_framed Catalogue.noteCatalogue hopen
  obtain ⟨rfl, rfl⟩ : [0x7b, 0x7d] = json ∧ tornNotes = body :=
    header_unique (by decide) hjson hs
  obtain ⟨last, hlast, -, hanswers⟩ := hframes _ _ framed_tornNotes
  obtain ⟨e, rfl, hfault⟩ := Option.map_eq_some_iff.mp hlast
  have hdecoded : tornFrames.map (fun frame => Catalogue.noteCatalogue.decode (frameBytes frame))
      = [.ok ⟨7, 1, [.bool true, .int (-300), .text "é"]⟩, .error ⟨7, 9, 1, .unknownType⟩] := by cbv
  refine ⟨_, e, hopen, hfault, ?_⟩
  rw [hanswers _ rfl, hdecoded]
  rfl

end BinaryReader

/-! ### Readers of lines -/

namespace TextReader

variable {c : Catalogue} {options : CommandOptions} {r r' : TextReader} {m m' : Metadata}

/-- All lines that are still to be read are text. -/
def HoldsText (r : TextReader) : Prop :=
  ∀ line ∈ r.lines, ∃ text, Utf8.decode? line = some text

/-- Reading a line of text is not refused. -/
theorem readLine_holdsText (hr : r.HoldsText) {stop : Stop} (h : r.readLine = (stop, r')) :
    r'.HoldsText ∧ ∀ fault, stop ≠ .failed (.input fault) := by
  unfold readLine at h
  split at h
  · cases h
    exact ⟨hr, fun _ hstop => nomatch hstop⟩
  split at h
  · split at h <;> cases h <;> exact ⟨hr, fun _ hstop => nomatch hstop⟩
  · rename_i line rest hlines
    rw [HoldsText, hlines, List.forall_mem_cons] at hr
    obtain ⟨⟨text, htext⟩, hrest⟩ := hr
    simp only [htext] at h
    split at h <;> cases h <;> exact ⟨hrest, fun _ hstop => nomatch hstop⟩

theorem readCommand_holdsText (hr : r.HoldsText) {result : Except RecordingError (Option Command)}
    (h : readCommand m r = (result, m', r')) :
    r'.HoldsText ∧ ∀ fault, result ≠ .error (.input fault) := by
  induction hn : r.remaining using Nat.strong_induction_on generalizing m r with
  | h n ih =>
    rw [readCommand_eq] at h
    split at h <;> rename_i hline <;> obtain ⟨hkept, hstop⟩ := readLine_holdsText hr hline
    · cases h
      exact ⟨hkept, fun _ hresult => nomatch hresult⟩
    · cases h
      refine ⟨hkept, fun fault hresult => hstop fault ?_⟩
      cases hresult
      rfl
    · cases h
      exact ⟨hkept, fun _ hresult => nomatch hresult⟩
    · exact ih _ (hn ▸ remaining_lt_of_found hline) hkept h rfl
    · exact ih _ (hn ▸ remaining_lt_of_found hline) hkept h rfl

/-- What is wrong with a command is no fault of the bytes. -/
theorem ofCommandOn_ne_input (line : ℕ) (e : CommandError) (fault : InputFault) :
    RecordingError.ofCommandOn line e ≠ .input fault := by
  cases e <;> exact RecordingError.noConfusion

theorem read_holdsText (hr : r.HoldsText) {result : Except RecordingError (Option Message)}
    (h : r.read c options = (result, r')) :
    r'.HoldsText ∧ ∀ fault, result ≠ .error (.input fault) := by
  have hmessage : ∀ line cmd fault, messageOf c options line cmd ≠ .error (.input fault) := by
    intro line cmd fault
    unfold messageOf
    split
    · exact fun hresult => nomatch hresult
    · exact fun hresult => ofCommandOn_ne_input line _ fault (Except.error.inj hresult)
  unfold read at h
  split at h
  · cases h
    exact ⟨hr, hmessage _ _⟩
  split at h <;> rename_i hcommand <;> obtain ⟨hkept, hresult⟩ := readCommand_holdsText hr hcommand
    <;> cases h
  · refine ⟨hkept, fun fault heq => hresult fault ?_⟩
    cases heq
    rfl
  · exact ⟨hkept, fun _ heq => nomatch heq⟩
  · exact ⟨hkept, hmessage _ _⟩

/-- A reader of lines of text gives the message that it reads as the next item. -/
theorem next_eq_read (hr : r.HoldsText) :
    r.next c options = (item? (r.read c options).1, (r.read c options).2) := by
  unfold next
  split <;> rename_i heq
  · rw [heq]
    rfl
  · rw [heq]
    rfl
  · exact absurd rfl ((read_holdsText hr heq).2 _)
  · rw [heq]
    rfl

theorem next_holdsText (hr : r.HoldsText) : (r.next c options).2.HoldsText := by
  rw [next_eq_read hr]
  exact (read_holdsText hr rfl).1

/-- The lines of a text are text, also those behind the command that is read ahead. -/
theorem holdsText_of_ofBytes {text : List Char} (h : ofBytes (Utf8.encode text) = .ok (m, r)) :
    r.HoldsText := by
  have hlines : HoldsText { lines := byteLines (Utf8.encode text) } := by
    intro line hline
    obtain ⟨_, -, decoded, hdecoded, -⟩ := exists_of_forall₂ (byteLines_encode text).flip hline
    exact ⟨decoded, hdecoded⟩
  unfold ofBytes at h
  split at h <;> rename_i hcommand <;> cases h <;> exact (readCommand_holdsText hlines hcommand).1

/-- The items of lines that one reader reads in order: each line with its number may give one, and
the end of the input another one, with the number of the last line. -/
def lineByLine (c : Catalogue) (options : CommandOptions) (lines : List (List Char)) :
    List (Except RecordingError Message) :=
  ((LineReader.outcomes {} lines).zipIdx 1).filterMap (fun o => lineItem? c options o.2 o.1)
    ++ (endItem? (LineReader.after {} lines) lines.length).toList

theorem lineItems_eq_filterMap (reader : LineReader) (n : ℕ) (lines : List (List Char)) :
    lineItems c options reader n lines = ((reader.outcomes lines).zipIdx (n + 1)).filterMap
      fun o => lineItem? c options o.2 o.1 := by
  induction lines generalizing reader n with
  | nil => rfl
  | cons line lines ih =>
    rw [lineItems, ih, LineReader.outcomes_cons, List.zipIdx_cons, List.filterMap_cons]
    cases lineItem? c options (n + 1) (reader.read line).1 <;> rfl

theorem itemsFrom_eq_lineByLine (lines : List (List Char)) :
    itemsFrom c options {} 0 lines = lineByLine c options lines := by
  rw [itemsFrom, lineItems_eq_filterMap, Nat.zero_add, Nat.zero_add, lineByLine]

/-- Whether the result of a line is a command. -/
def isCommand : Except LineFault LineResult → Bool
  | .ok (.command _) => true
  | _ => false

/-- The metadata text of the result of a line. -/
def metadataPair? : Except LineFault LineResult → Option (String × String)
  | .ok (.metadata key value) => some (key, value)
  | _ => none

theorem collect_eq_foldl (m : Metadata) (o : Except LineFault LineResult) :
    collect m o = (metadataPair? o).toList.foldl (fun m p => m.insert p.1 p.2) m := by
  rcases o with e | result
  · rfl
  · cases result <;> rfl

/-- The metadata texts in front of the first command. -/
def openingEntries (outcomes : List (Except LineFault LineResult)) : List (String × String) :=
  (outcomes.takeWhile fun o => !isCommand o).filterMap metadataPair?

theorem openingEntries_cons_of_quiet {o : Except LineFault LineResult} (h : Quiet o)
    (outcomes : List (Except LineFault LineResult)) :
    openingEntries (o :: outcomes) = (metadataPair? o).toList ++ openingEntries outcomes := by
  have hquiet : isCommand o = false := by
    rcases o with e | result
    · rfl
    · cases result with
      | command cmd => exact h.elim
      | _ => rfl
  rw [openingEntries, List.takeWhile_cons_of_pos (by rw [hquiet]; rfl), List.filterMap_cons]
  cases metadataPair? o <;> rfl

/-- Opening a recording collects the metadata texts in front of its first command. -/
theorem opening_eq_foldl {reader : LineReader} {n : ℕ} {lines : List (List Char)}
    (h : opening m reader n lines = .ok m') :
    m' = (openingEntries (reader.outcomes lines)).foldl (fun m p => m.insert p.1 p.2) m := by
  induction lines generalizing m reader n with
  | nil =>
    unfold opening at h
    split at h <;> cases h
    rfl
  | cons line lines ih =>
    rw [LineReader.outcomes_cons]
    rcases quiet_or (reader.read line).1 with hquiet | ⟨cmd, hcmd⟩ | ⟨e, he⟩
    · rw [opening_cons_of_quiet hquiet] at h
      rw [openingEntries_cons_of_quiet hquiet, List.foldl_append, ← collect_eq_foldl, ih h]
    · rw [opening_cons_of_command hcmd] at h
      cases h
      rw [hcmd]
      rfl
    · rw [opening_cons_of_rejected he] at h
      cases h

/-- A text recording that is opened answers calls with the items that one reader of its lines gives,
line by line, whichever calls are made, and then with the end. Its metadata holds the last text of
each key in front of the first command. -/
theorem answers_lineByLine (c : Catalogue) (options : CommandOptions) {text : List Char}
    (h : ofBytes (Utf8.encode text) = .ok (m, r)) :
    (∀ calls, answers (next c options) (read c options) r calls
      = (List.range calls.length).map fun i => (lineByLine c options (Text.lines text))[i]?) ∧
    ∀ key, m.entries.lookup key
      = (openingEntries (LineReader.outcomes {} (Text.lines text))).reverse.lookup key := by
  obtain ⟨hopening, hyields⟩ := opening_of_gives h (gives_lines c options text)
  constructor
  · intro calls
    rw [itemsFrom_eq_lineByLine] at hyields
    have hkeep : ∀ r : TextReader, r.HoldsText → (r.next c options).2.HoldsText :=
      fun _ => next_holdsText
    exact answers_of_yields (fun _ => next_eq_read) hkeep (holdsText_of_ofBytes h) hyields calls
  · intro key
    rw [opening_eq_foldl hopening, Metadata.lookup_foldl_insert]
    exact Option.or_none

/-- A recording with a comment, a key that is given three times, the last time behind the first
command, a line that is no command, and a block without an end. -/
def labelRecording : List Char :=
  "!v=1\n# no text\n!v=2\n5 label b=hi\n!v=3\nx\n6 label \x7b\n".toList

theorem answers_labelRecording :
    ∃ m r, ofBytes (Utf8.encode labelRecording) = .ok (m, r) ∧ m.entries.lookup "v" = some "2" ∧
      answers (next Catalogue.labelCatalogue {}) (read Catalogue.labelCatalogue {}) r
          [.read, .next, .read, .next, .read]
        = [some (.ok ⟨5, 1, [.bytes [], .text "hi"]⟩),
          some (.error (.line 6 (.malformed (.expectedCommand "x")))),
          some (.error (.line 7 (.malformed (.unterminatedBlock "label")))), none, none] := by
  have hgives := gives_lines Catalogue.labelCatalogue {} labelRecording
  have hcontents : contents Catalogue.labelCatalogue {} (Text.lines labelRecording)
      = .ok (.ofPairs [("v", "2")], [.ok ⟨5, 1, [.bytes [], .text "hi"]⟩,
          .error (.line 6 (.malformed (.expectedCommand "x"))),
          .error (.line 7 (.malformed (.unterminatedBlock "label")))]) := by cbv
  rw [hcontents] at hgives
  obtain ⟨r, hopen, -⟩ := hgives
  obtain ⟨hanswers, hmetadata⟩ := answers_lineByLine Catalogue.labelCatalogue {} hopen
  have hitems : lineByLine Catalogue.labelCatalogue {} (Text.lines labelRecording)
      = [.ok ⟨5, 1, [.bytes [], .text "hi"]⟩,
        .error (.line 6 (.malformed (.expectedCommand "x"))),
        .error (.line 7 (.malformed (.unterminatedBlock "label")))] := by cbv
  have hentries : openingEntries (LineReader.outcomes {} (Text.lines labelRecording))
      = [("v", "1"), ("v", "2")] := by cbv
  refine ⟨_, r, hopen, ?_, ?_⟩
  · rw [hmetadata, hentries]
    rfl
  · rw [hanswers, hitems]
    rfl

end TextReader

end WireSchema
