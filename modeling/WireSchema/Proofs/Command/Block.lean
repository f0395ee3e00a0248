import Mathlib
import WireSchema.Proofs.Command.Reading

/-!
# Blocks, call by call

A reader of lines is called for one line after the other, and for the end of the input, in any order
and as often as one likes. It keeps one thing between calls: the block that is open. This is said
here in terms of the calls alone. A block is open exactly if some line opened it outside of a block
and all calls since then were lines that are idle or hold a record; its command is that of the first
line, and its records are those of the lines since then, in order. So nothing is lost, repeated or
taken over from a block that was given up.

* `LineReader.answer`, `LineReader.behind`, `LineReader.transcript` — calls and what they answer;
* `LineReader.EndsInBlock` and `LineReader.endsInBlock_of_pending`,
  `LineReader.pending_of_endsInBlock` — the block that is open behind calls;
* `LineReader.read_eq_command_iff` — the commands that are answered;
* `LineReader.transcript_interspersed` — idle lines in between;
* `LineReader.blocks_exact` — all of this together.
-/

namespace WireSchema

open WireSchema.Text

/-! ### Lines that hold a command -/

/-- The first word of a line that holds a command is a number. -/
theorem exists_number_of_readCommandLine {line : List Char} {result : Command × Bool}
    (h : readCommandLine line = .ok result) :
    ∃ word ws n, words line = word :: ws ∧ readBelow 10 256 word = some n := by
  simp only [readCommandLine] at h
  split at h
  case h_2 => cases h
  rename_i hwords
  unfold Command.ofWords at hwords
  split at hwords
  case h_2 => cases hwords
  rename_i userId name args heq
  split at hwords
  case h_1 => cases hwords
  rename_i n hn
  have hprefix : userId :: name :: args <+: words line := by
    rw [← heq]
    split
    · exact List.dropLast_prefix _
    · exact List.prefix_rfl
  obtain ⟨more, hmore⟩ := hprefix
  exact ⟨userId, name :: args ++ more, n, hmore.symm, hn⟩

/-- A line that holds a command is neither idle nor metadata: it starts with a number. -/
theorem not_idle_of_readCommandLine {line : List Char} {result : Command × Bool}
    (h : readCommandLine (trim line) = .ok result) :
    LineReader.isIdle (trim line) = false ∧ ∀ content, trim line ≠ '!' :: content := by
  obtain ⟨word, ws, n, hwords, hn⟩ := exists_number_of_readCommandLine h
  cases htrim : trim line with
  | nil =>
    rw [htrim] at hwords
    cases hwords
  | cons c tail =>
    have hblank : isBlank c = false := not_isBlank_head_trim (s := line) (by rw [htrim]; rfl)
    obtain ⟨rest, more, hfirst⟩ := exists_words_eq_cons hblank tail
    rw [htrim, hfirst] at hwords
    cases hwords
    have hne : ∀ mark, readBelow 10 256 (mark :: rest) = none → c ≠ mark := by
      rintro mark hnone rfl
      rw [hnone] at hn
      cases hn
    refine ⟨beq_eq_false_iff_ne.mpr (hne '#' rfl), fun content heq => ?_⟩
    exact hne '!' rfl (List.cons.inj heq).1

namespace LineReader

variable {line : List Char} {c : Command}

/-- Outside of a block, a line with a command is read as that command, or opens its block. -/
theorem read_of_readCommandLine {opens : Bool}
    (h : readCommandLine (trim line) = .ok (c, opens)) :
    LineReader.read {} line
      = if opens then (.ok .needMore, ⟨some ⟨c, []⟩⟩) else (.ok (.command c), {}) := by
  obtain ⟨hidle, hmark⟩ := not_idle_of_readCommandLine h
  show readOutside (trim line) = _
  unfold readOutside
  rw [hidle, if_neg Bool.false_ne_true]
  split
  · rename_i content htrim
    exact absurd htrim (hmark content)
  · rw [h]
    cases opens <;> rfl

/-! ### Calls -/

/-- A call of a reader of lines: for one more line, or for the end of the input. -/
inductive Call where
  | line (line : List Char)
  | finish

/-- What a call answers. -/
inductive Answer where
  | line (outcome : Except LineFault LineResult)
  | finish (outcome : Except LineFault Unit)

/-- The answer to a call, and the reader behind it. -/
def answer (r : LineReader) : Call → Answer × LineReader
  | .line line => (.line (r.read line).1, (r.read line).2)
  | .finish => (.finish r.finish.1, r.finish.2)

/-- The reader behind some calls. -/
def behind (r : LineReader) (calls : List Call) : LineReader :=
  calls.foldl (fun r call => (r.answer call).2) r

/-- Calls one after the other, each with its answer. -/
def transcript (r : LineReader) : List Call → List (Call × Answer)
  | [] => []
  | call :: calls => (call, (r.answer call).1) :: (r.answer call).2.transcript calls

theorem behind_append (r : LineReader) (calls more : List Call) :
    r.behind (calls ++ more) = (r.behind calls).behind more :=
  List.foldl_append

theorem behind_concat (r : LineReader) (calls : List Call) (call : Call) :
    r.behind (calls ++ [call]) = ((r.behind calls).answer call).2 :=
  List.foldl_concat _ _ _ _

/-- The end of the input leaves a new reader. -/
theorem finish_eq_empty (r : LineReader) : r.finish.2 = {} := by
  obtain ⟨pending⟩ := r
  cases pending <;> rfl

/-! ### The block that is open -/

/-- The records of the lines of a block; idle lines have none. -/
def blockRecords (lines : List (List Char)) : Except LineFault (List (List Binary64)) :=
  ((lines.map trim).filter fun line => !isIdle line).mapM readRecordLine

/-- The calls end in a block: a line outside of a block opened it, and then there were only lines,
of which none was its end and each that is not idle has a record. -/
def EndsInBlock (calls : List Call) (head : Command) (records : List (List Binary64)) : Prop :=
  ∃ front opening between, calls = front ++ .line opening :: between.map .line ∧
    (behind {} front).pending = none ∧ readCommandLine (trim opening) = .ok (head, true) ∧
    (∀ line ∈ between, trim line ≠ ['}']) ∧ blockRecords between = .ok records

theorem blockRecords_concat_idle (lines : List (List Char)) (hidle : isIdle (trim line) = true) :
    blockRecords (lines ++ [line]) = blockRecords lines := by
  have hnone : [trim line].filter (fun line => !isIdle line) = [] := by
    rw [List.filter_singleton, hidle]
    rfl
  rw [blockRecords, List.map_append, List.filter_append, List.map_singleton, hnone,
    List.append_nil, blockRecords]

theorem blockRecords_concat_iff (hidle : isIdle (trim line) = false) (lines : List (List Char))
    (records : List (List Binary64)) :
    blockRecords (lines ++ [line]) = .ok records ↔ ∃ init record, blockRecords lines = .ok init ∧
      readRecordLine (trim line) = .ok record ∧ records = init ++ [record] := by
  have hone : [trim line].filter (fun line => !isIdle line) = [trim line] := by
    rw [List.filter_singleton, hidle]
    rfl
  simp only [blockRecords, mapM_eq_ok]
  rw [List.map_append, List.filter_append, List.map_singleton, hone, forall₂_concat_left_iff]

/-- The end of a block is no record. -/
theorem ne_end_of_readRecordLine {record : List Binary64}
    (h : readRecordLine (trim line) = .ok record) : trim line ≠ ['}'] := by
  intro hend
  have hbrace : readRecordLine ['}'] = .error (.invalidRecordValue "\x7d") := by cbv
  rw [hend, hbrace] at h
  cases h

variable {calls : List Call} {head : Command} {records : List (List Binary64)}

theorem EndsInBlock.concat_idle (h : EndsInBlock calls head records)
    (hidle : isIdle (trim line) = true) : EndsInBlock (calls ++ [.line line]) head records := by
  obtain ⟨front, opening, between, rfl, hfront, hopens, hnot, hrecords⟩ := h
  refine ⟨front, opening, between ++ [line], ?_, hfront, hopens, ?_, ?_⟩
  · rw [List.map_append, List.map_singleton, List.append_assoc, List.cons_append]
  · rw [List.forall_mem_append, List.forall_mem_singleton]
    refine ⟨hnot, fun hend => ?_⟩
    rw [hend] at hidle
    cases hidle
  · rw [blockRecords_concat_idle _ hidle, hrecords]

theorem EndsInBlock.concat_record (h : EndsInBlock calls head records)
    (hidle : isIdle (trim line) = false) {record : List Binary64}
    (hline : readRecordLine (trim line) = .ok record) :
    EndsInBlock (calls ++ [.line line]) head (records ++ [record]) := by
  obtain ⟨front, opening, between, rfl, hfront, hopens, hnot, hrecords⟩ := h
  refine ⟨front, opening, between ++ [line], ?_, hfront, hopens, ?_, ?_⟩
  · rw [List.map_append, List.map_singleton, List.append_assoc, List.cons_append]
  · rw [List.forall_mem_append, List.forall_mem_singleton]
    exact ⟨hnot, ne_end_of_readRecordLine hline⟩
  · exact (blockRecords_concat_iff hidle between _).mpr ⟨records, record, hrecords, hline, rfl⟩

/-- The block that is open behind calls was opened and filled by them. -/
theorem endsInBlock_of_pending {b : OpenBlock} (h : (behind {} calls).pending = some b) :
    EndsInBlock calls b.command b.records.reverse := by
  induction calls using List.reverseRecOn generalizing b with
  | nil => cases h
  | append_singleton calls call ih =>
    rw [behind_concat] at h
    cases call with
    | finish =>
      rw [answer, finish_eq_empty] at h
      cases h
    | line line =>
      cases hread : (behind {} calls).read line with
      | mk outcome r' =>
        rw [answer, hread] at h
        generalize hr : behind {} calls = r at hread ih
        cases step_of_read hread with
        | idleInside hidle =>
          cases h
          exact (ih rfl).concat_idle hidle
        | @record b' record hidle hline =>
          cases h
          rw [List.reverse_cons]
          exact (ih rfl).concat_record hidle hline
        | opens hline =>
          cases h
          exact ⟨calls, line, [], rfl, by rw [hr], hline, (fun _ hmem => nomatch hmem), rfl⟩
        | closes => cases h
        | noRecord => cases h
        | idleOutside => cases h
        | metadata => cases h
        | noMetadata => cases h
        | command => cases h
        | noCommand => cases h

theorem read_record (b : OpenBlock) (hidle : isIdle (trim line) = false)
    {record : List Binary64} (h : readRecordLine (trim line) = .ok record) :
    LineReader.read ⟨some b⟩ line
      = (.ok .needMore, ⟨some { b with records := record :: b.records }⟩) := by
  show readInBlock b (trim line) = _
  rw [readInBlock, if_neg (ne_end_of_readRecordLine h), hidle, if_neg Bool.false_ne_true, h]

/-- Idle lines and lines with a record fill the block that is open. -/
theorem behind_records (b : OpenBlock) {between : List (List Char)}
    (h : blockRecords between = .ok records) :
    behind ⟨some b⟩ (between.map .line)
      = ⟨some { b with records := records.reverse ++ b.records }⟩ := by
  induction between using List.reverseRecOn generalizing records with
  | nil =>
    cases h
    rfl
  | append_singleton between line ih =>
    rw [List.map_append, List.map_singleton, behind_concat, answer]
    cases hidle : isIdle (trim line) with
    | true =>
      rw [blockRecords_concat_idle _ hidle] at h
      rw [ih h, read_idle _ hidle]
    | false =>
      obtain ⟨init, record, hinit, hline, rfl⟩ := (blockRecords_concat_iff hidle _ _).mp h
      rw [ih hinit, read_record _ hidle hline, List.reverse_append, List.reverse_singleton]
      rfl

theorem pending_of_endsInBlock (h : EndsInBlock calls head records) :
    behind {} calls = ⟨some ⟨head, records.reverse⟩⟩ := by
  obtain ⟨front, opening, between, rfl, hfront, hopens, -, hrecords⟩ := h
  have hopened : ((behind {} front).answer (.line opening)).2 = ⟨some ⟨head, []⟩⟩ := by
    rw [eq_empty_of_pending hfront, answer, read_of_readCommandLine hopens]
    rfl
  rw [behind_append]
  show behind ((behind {} front).answer (.line opening)).2 (between.map .line) = _
  rw [hopened, behind_records _ hrecords, List.append_nil]

/-! ### Commands -/

/-- A line gives a command exactly if it holds one and no block is open, or if it ends the block
that is open. -/
theorem read_eq_command_iff (calls : List Call) (line : List Char) (c : Command) :
    ((behind {} calls).read line).1 = .ok (.command c) ↔
      ((behind {} calls).pending = none ∧ readCommandLine (trim line) = .ok (c, false)) ∨
        (trim line = ['}'] ∧ ∃ head records, EndsInBlock calls head records ∧
          c = { head with records := records }) := by
  constructor
  · intro h
    have hopen := @endsInBlock_of_pending calls
    cases hread : (behind {} calls).read line with
    | mk outcome r' =>
      rw [hread] at h
      subst h
      generalize behind {} calls = r at hread hopen ⊢
      cases step_of_read hread with
      | closes hend => exact Or.inr ⟨hend, _, _, hopen rfl, rfl⟩
      | command hline => exact Or.inl ⟨rfl, hline⟩
  · rintro (⟨houtside, hline⟩ | ⟨hend, head, records, hblock, rfl⟩)
    · rw [eq_empty_of_pending houtside, read_of_readCommandLine hline]
      rfl
    · rw [pending_of_endsInBlock hblock]
      show (readInBlock _ (trim line)).1 = _
      rw [readInBlock, if_pos hend, OpenBlock.close, List.reverse_reverse]

/-! ### Idle lines in between -/

/-- The second list is the first one with more entries in between, of which something holds. -/
inductive Interspersed {α : Type} (P : α → Prop) : List α → List α → Prop
  | nil : Interspersed P [] []
  | keep (a : α) {list more : List α} (h : Interspersed P list more) :
      Interspersed P (a :: list) (a :: more)
  | add {a : α} (ha : P a) {list more : List α} (h : Interspersed P list more) :
      Interspersed P list (a :: more)

/-- A call for an idle line. -/
def Call.IsIdle : Call → Prop
  | .line line => isIdle (trim line) = true
  | .finish => False

/-- A call for an idle line that gives nothing. -/
def IsQuiet (entry : Call × Answer) : Prop :=
  entry.1.IsIdle ∧ (entry.2 = .line (.ok .skip) ∨ entry.2 = .line (.ok .needMore))

theorem answer_idle (r : LineReader) {call : Call} (h : call.IsIdle) :
    IsQuiet (call, (r.answer call).1) ∧ (r.answer call).2 = r := by
  cases call with
  | finish => cases h
  | line line =>
    rw [answer, read_idle r h]
    refine ⟨⟨h, ?_⟩, rfl⟩
    cases r.pending with
    | none => exact Or.inl rfl
    | some b => exact Or.inr rfl

/-- Idle lines in between leave the answers to the other calls as they are, and the reader that they
lead to. -/
theorem transcript_interspersed (r : LineReader) {calls more : List Call}
    (h : Interspersed Call.IsIdle calls more) :
    Interspersed IsQuiet (r.transcript calls) (r.transcript more) ∧
      r.behind more = r.behind calls := by
  induction h generalizing r with
  | nil => exact ⟨.nil, rfl⟩
  | keep call h ih =>
    obtain ⟨htranscript, hbehind⟩ := ih (r.answer call).2
    exact ⟨.keep _ htranscript, hbehind⟩
  | @add call hidle calls more h ih =>
    obtain ⟨hquiet, hsame⟩ := r.answer_idle hidle
    obtain ⟨htranscript, hbehind⟩ := ih r
    constructor
    · rw [transcript, hsame]
      exact .add hquiet htranscript
    · show (r.answer call).2.behind more = _
      rw [hsame, hbehind]

/-- Whatever calls are made, a reader of lines loses, repeats and mixes nothing. A command that the
end of a block gives has the sender, the name and the arguments of the line that opened this block,
and the records of the lines since then; a call for another line gives the command that this line
holds. A line that is rejected, and the end of the input, leave a new reader. And idle lines in
between leave all other answers as they are, and the reader. -/
theorem blocks_exact :
    (∀ (calls : List Call) (line : List Char) (c : Command),
      ((behind {} calls).read line).1 = .ok (.command c) ↔
        ((behind {} calls).pending = none ∧ readCommandLine (trim line) = .ok (c, false)) ∨
          (trim line = ['}'] ∧ ∃ head records, EndsInBlock calls head records ∧
            c = { head with records := records })) ∧
      (∀ (r : LineReader) (line : List Char) (e : LineFault),
        (r.read line).1 = .error e → (r.read line).2 = {}) ∧
      (∀ r : LineReader, r.finish.2 = {}) ∧
      ∀ (r : LineReader) (calls more : List Call), Interspersed Call.IsIdle calls more →
        Interspersed IsQuiet (r.transcript calls) (r.transcript more) ∧
          r.behind more = r.behind calls := by
  refine ⟨read_eq_command_iff, ?_, finish_eq_empty, ?_⟩
  · intro r line e h
    rw [read_rejected h]
  · intro r calls more h
    exact r.transcript_interspersed h

/-- Calls for a block that is given up at a line without a record, and for another block up to its
last record, with a comment in it. -/
def penCalls : List Call :=
  [.line "5 dot \x7b".toList, .line "x".toList, .line "7 pen a=1 \x7b".toList, .line "inf".toList,
    .line "# note".toList, .line "NaN -inf".toList]

/-- The block that is given up leaves nothing to the next one. -/
theorem blocks_exact_penCalls :
    ((behind {} penCalls).read ['}']).1
        = .ok (.command ⟨7, "pen", [("a", "1")], [[.infinity false], [.nan, .infinity true]]⟩) ∧
      ((behind {} (penCalls.take 1)).read "x".toList).2 = {} ∧ (behind {} penCalls).finish.2 = {} ∧
      Interspersed IsQuiet (transcript {} (penCalls.eraseIdx 4)) (transcript {} penCalls) := by
  obtain ⟨hcommands, hrejected, hfinish, hidle⟩ := blocks_exact
  have hcomment : Call.IsIdle (.line "# note".toList) := rfl
  refine ⟨(hcommands _ _ _).mpr (Or.inr ⟨rfl, ⟨7, "pen", [("a", "1")], []⟩, _, ?_, rfl⟩),
    hrejected _ _ (.invalidRecordValue "x") (by cbv), hfinish _, (hidle {} _ _ ?_).1⟩
  · exact ⟨penCalls.take 2, "7 pen a=1 \x7b".toList,
      ["inf".toList, "# note".toList, "NaN -inf".toList], rfl, by cbv, by cbv, by decide, by cbv⟩
  · exact .keep _ (.keep _ (.keep _ (.keep _ (.add hcomment (.keep _ .nil)))))

end LineReader

end WireSchema
