import Mathlib
import WireSchema.Proofs.Command.Line

/-!
# Commands that are read back

Whatever a text holds, a command that is read from it is made of words: its line was cut at blanks,
a key ends before the first equals sign of its word, an empty value is left out, and a line that
gives a record is not blank. The reader of lines keeps this of the block that is open. So a command
that is not made of words is not read back from its written form. One that is made of words is,
unless its name alone stands at the end of the line and is the mark that opens a block.

* `LineReader.Step`, `LineReader.step_of_read` — all that a line can do;
* `Command.addWord_worded`, `Command.worded_of_readCommandLine` — one argument, one line;
* `LineReader.read_holdsWords` — what a reader of lines keeps;
* `Command.worded_of_ofText` — the command of a text;
* `Command.ofText_render_iff` — the commands that are read back from their written form;
* `Command.ofText_render_of_ofText` — the written form of what was read from any text.
-/

namespace WireSchema

open WireSchema.Text

/-! ### What a line does -/

namespace LineReader

/-- What a line does to its reader, inside of a block and outside. -/
inductive Step (line : List Char) :
    LineReader → Except LineFault LineResult → LineReader → Prop
  | closes {b : OpenBlock} (h : trim line = ['}']) :
      Step line ⟨some b⟩ (.ok (.command b.close)) ⟨none⟩
  | idleInside {b : OpenBlock} (h : isIdle (trim line) = true) :
      Step line ⟨some b⟩ (.ok .needMore) ⟨some b⟩
  | record {b : OpenBlock} {record : List Binary64} (hidle : isIdle (trim line) = false)
      (h : readRecordLine (trim line) = .ok record) :
      Step line ⟨some b⟩ (.ok .needMore) ⟨some { b with records := record :: b.records }⟩
  | noRecord {b : OpenBlock} {e : LineFault} (h : readRecordLine (trim line) = .error e) :
      Step line ⟨some b⟩ (.error e) ⟨none⟩
  | idleOutside (h : isIdle (trim line) = true) : Step line ⟨none⟩ (.ok .skip) ⟨none⟩
  | metadata {content : List Char} {key value : String} (hmark : trim line = '!' :: content)
      (h : readMetadataLine (trim line) content = .ok (key, value)) :
      Step line ⟨none⟩ (.ok (.metadata key value)) ⟨none⟩
  | noMetadata {content : List Char} {e : LineFault} (hmark : trim line = '!' :: content)
      (h : readMetadataLine (trim line) content = .error e) : Step line ⟨none⟩ (.error e) ⟨none⟩
  | opens {c : Command} (h : readCommandLine (trim line) = .ok (c, true)) :
      Step line ⟨none⟩ (.ok .needMore) ⟨some ⟨c, []⟩⟩
  | command {c : Command} (h : readCommandLine (trim line) = .ok (c, false)) :
      Step line ⟨none⟩ (.ok (.command c)) ⟨none⟩
  | noCommand {e : LineFault} (h : readCommandLine (trim line) = .error e) :
      Step line ⟨none⟩ (.error e) ⟨none⟩

/-- Reading a line is one of these steps. -/
theorem step_of_read {r r' : LineReader} {line : List Char} {outcome : Except LineFault LineResult}
    (h : r.read line = (outcome, r')) : Step line r outcome r' := by
  obtain ⟨pending⟩ := r
  cases pending with
  | some b =>
    change readInBlock b (trim line) = _ at h
    unfold readInBlock at h
    split_ifs at h with hend hidle
    · cases h
      exact .closes hend
    · cases h
      exact .idleInside hidle
    · split at h <;> rename_i hrecord <;> cases h
      · exact .record (Bool.eq_false_iff.mpr hidle) hrecord
      · exact .noRecord hrecord
  | none =>
    change readOutside (trim line) = _ at h
    unfold readOutside at h
    split_ifs at h with hidle
    · cases h
      exact .idleOutside hidle
    · split at h
      · rename_i content hmark
        split at h <;> rename_i hread <;> cases h
        · exact .metadata hmark hread
        · exact .noMetadata hmark hread
      · split at h <;> rename_i hread <;> cases h
        · exact .opens hread
        · exact .command hread
        · exact .noCommand hread

variable {r : LineReader} {line : List Char}

theorem eq_empty_of_pending (h : r.pending = none) : r = {} := by
  cases r
  cases h
  rfl

/-- A line that is rejected leaves no block open. -/
theorem read_rejected {e : LineFault} (h : (r.read line).1 = .error e) :
    r.read line = (.error e, {}) := by
  cases hread : r.read line with
  | mk outcome r' =>
    rw [hread] at h
    subst h
    cases step_of_read hread <;> rfl

/-- An idle line leaves the reader as it is and gives no command, no metadata and no error. -/
theorem read_idle (r : LineReader) (h : isIdle (trim line) = true) :
    r.read line = (.ok (if r.pending.isSome then .needMore else .skip), r) := by
  obtain ⟨pending⟩ := r
  cases pending with
  | none =>
    show readOutside (trim line) = _
    unfold readOutside
    rw [if_pos h]
    rfl
  | some b =>
    have hend : trim line ≠ ['}'] := by
      intro hend
      rw [hend] at h
      cases h
    show readInBlock b (trim line) = _
    rw [readInBlock, if_neg hend, if_pos h]
    rfl

end LineReader

namespace Command

variable {c c' : Command} {line : List Char}

/-! ### One line -/

/-- Records behind words leave words, if none of them is empty. -/
theorem Worded.withRecords (hc : c.Worded) {records : List (List Binary64)}
    (h : ∀ record ∈ records, record ≠ []) : Worded { c with records := records } :=
  ⟨hc.name, hc.keys, hc.values, h⟩

/-- The argument of a word has a key without an equals sign, and a value or no place. -/
theorem addWord_worded {word : List Char} (hword : IsWord word) (hc : c.Worded)
    (h : c.addWord word = .ok c') : c'.Worded := by
  unfold addWord at h
  split at h
  · cases h
  rename_i key escaped hcut
  split at h <;> cases h
  rename_i value _
  unfold set
  split
  · exact hc
  · rename_i hvalue
    refine ⟨hc.name, ?_, ?_, hc.records⟩
    · rw [List.forall_mem_append, List.forall_mem_singleton, String.toList_ofList]
      refine ⟨hc.keys, not_mem_of_cutAt hcut, fun ch hch => hword.2 ch ?_⟩
      rw [eq_of_cutAt hcut]
      exact List.mem_append_left _ hch
    · rw [List.forall_mem_append, List.forall_mem_singleton]
      exact ⟨hc.values, hvalue⟩

theorem worded_of_ofWords {ws : List (List Char)} (hws : ∀ w ∈ ws, IsWord w)
    (h : ofWords line ws = .ok c) : c.Worded := by
  unfold ofWords at h
  split at h
  · rename_i userId name args
    rw [List.forall_mem_cons, List.forall_mem_cons] at hws
    split at h
    · cases h
    refine foldlM_invariant (fun w hw _ _ => addWord_worded (hws.2.2 w hw)) ?_ h
    refine ⟨?_, ?_, ?_, ?_⟩
    · rw [String.toList_ofList]
      exact hws.2.1
    all_goals exact fun _ hmem => absurd hmem List.not_mem_nil
  · cases h

/-- The words of a line give words. -/
theorem worded_of_readCommandLine {opens : Bool} (h : readCommandLine line = .ok (c, opens)) :
    c.Worded := by
  simp only [readCommandLine] at h
  split at h <;> cases h
  rename_i hwords
  refine worded_of_ofWords (fun w hw => isWord_of_mem_words (s := line) ?_) hwords
  split at hw
  · exact List.mem_of_mem_dropLast hw
  · exact hw

/-- A line that is not idle has a number in its record. -/
theorem ne_nil_of_readRecordLine {record : List Binary64}
    (hidle : LineReader.isIdle (trim line) = false) (h : readRecordLine (trim line) = .ok record) :
    record ≠ [] := by
  rintro rfl
  rw [readRecordLine, mapM_eq_ok, List.forall₂_nil_right_iff] at h
  cases htrim : trim line with
  | nil =>
    rw [htrim] at hidle
    cases hidle
  | cons ch tail =>
    have hhead : isBlank ch = false := not_isBlank_head_trim (s := line) (by rw [htrim]; rfl)
    rw [htrim] at h
    exact words_ne_nil List.mem_cons_self hhead h

end Command

/-! ### All lines -/

namespace LineReader

variable {r r' : LineReader} {line : List Char} {result : LineResult}

/-- If a block is open, its command is made of words when it is closed. -/
def HoldsWords (r : LineReader) : Prop :=
  ∀ b, r.pending = some b → b.close.Worded

theorem holdsWords_empty : HoldsWords {} := by
  intro b hopen
  cases hopen

/-- A line that is read keeps words in an open block, and gives a command that is made of words. -/
theorem read_holdsWords (hr : r.HoldsWords) (h : r.read line = (.ok result, r')) :
    r'.HoldsWords ∧ ∀ c, result = .command c → c.Worded := by
  have hopen : ∀ b : OpenBlock, b.close.Worded → HoldsWords ⟨some b⟩ := by
    intro b hb b' heq
    cases heq
    exact hb
  cases step_of_read h with
  | closes =>
    refine ⟨holdsWords_empty, fun c hresult => ?_⟩
    cases hresult
    exact hr _ rfl
  | idleInside => exact ⟨hr, fun _ hresult => nomatch hresult⟩
  | @record b record hidle hrecord =>
    refine ⟨hopen _ ?_, fun _ hresult => nomatch hresult⟩
    have hb := hr b rfl
    refine hb.withRecords fun other hother => ?_
    rcases List.mem_cons.mp (List.mem_reverse.mp hother) with rfl | hother
    · exact Command.ne_nil_of_readRecordLine hidle hrecord
    · exact hb.records other (List.mem_reverse.mpr hother)
  | idleOutside => exact ⟨holdsWords_empty, fun _ hresult => nomatch hresult⟩
  | metadata => exact ⟨holdsWords_empty, fun _ hresult => nomatch hresult⟩
  | opens hline =>
    refine ⟨hopen _ ?_, fun _ hresult => nomatch hresult⟩
    refine (Command.worded_of_readCommandLine hline).withRecords fun _ hmem => ?_
    exact absurd hmem List.not_mem_nil
  | command hline =>
    refine ⟨holdsWords_empty, fun c hresult => ?_⟩
    cases hresult
    exact Command.worded_of_readCommandLine hline

end LineReader

/-- Lines that are read behind an open block of words, or behind a command of words, give one. -/
theorem worded_of_commandOfLines {r : LineReader} {found : Option Command}
    {lines : List (List Char)} {c : Command} (hr : r.HoldsWords)
    (hfound : ∀ c, found = some c → c.Worded) (h : commandOfLines r found lines = .ok c) :
    c.Worded := by
  induction lines generalizing r found with
  | nil =>
    unfold commandOfLines at h
    split at h <;> cases h
    exact hfound c rfl
  | cons line lines ih =>
    unfold commandOfLines at h
    split at h
    · cases h
    · cases h
    · rename_i hread
      obtain ⟨hkept, hcommand⟩ := LineReader.read_holdsWords hr hread
      split_ifs at h
      refine ih hkept (fun c' hc' => ?_) h
      cases hc'
      exact hcommand _ rfl
    · rename_i hread
      exact ih (LineReader.read_holdsWords hr hread).1 hfound h

namespace Command

variable {c : Command}

/-- A command that is read is made of words. -/
theorem worded_of_ofText {text : List Char} (h : ofText text = .ok c) : c.Worded := by
  refine worded_of_commandOfLines LineReader.holdsWords_empty (fun _ hfound => ?_) h
  cases hfound

/-! ### Commands that are read back -/

/-- A name that opens a block leaves a line without a name. -/
theorem ofText_render_brace (hc : c.Worded) (hargs : c.args = []) (hrecords : c.records = [])
    (hname : c.name = "\x7b") :
    ofText c.render = .error (.expectedCommand (String.ofList c.render)) := by
  have hwords : c.headWords = [numeral 10 c.userId.toNat, ['{']] := by
    rw [headWords, hargs, hname]
    rfl
  have hrender : c.render = List.intercalate [' '] c.headWords := by
    rw [render, renderHead_eq, hrecords]
    exact List.append_nil _
  obtain ⟨d, tail, htail, hd⟩ := c.exists_cons_headWords []
  rw [List.append_nil] at htail
  have hline : readCommandLine (d :: tail)
      = .error (.expectedCommand (String.ofList (d :: tail))) := by
    rw [← htail]
    simp only [readCommandLine, words_headWords hc]
    rw [hwords]
    rfl
  have hread : LineReader.read {} (List.intercalate [' '] c.headWords)
      = (.error (.expectedCommand (String.ofList (d :: tail))), ⟨none⟩) := by
    show LineReader.readOutside (trim (List.intercalate [' '] c.headWords)) = _
    rw [trim_intercalate (isWord_of_mem_headWords hc), htail, readOutside_of_digit hd, hline]
  rw [ofText, lines_render_of_nil hc hrecords, commandOfLines, hread, hrender, htail]

/-- A command that is read back from its written form can be written as words. -/
theorem writable_of_ofText_render (h : ofText c.render = .ok c) : c.Writable := by
  have hc := worded_of_ofText h
  refine ⟨hc, fun hargs hrecords hname => ?_⟩
  cases h.symm.trans (ofText_render_brace hc hargs hrecords hname)

/-- Just the commands that can be written as words are read back from their written form, whatever
the characters of their values are; a record may hold any numbers, also the one that is none. -/
theorem ofText_render_iff (c : Command) : ofText c.render = .ok c ↔ c.Writable :=
  ⟨writable_of_ofText_render, ofText_render⟩

/-! ### Commands of any text -/

/-- However a text spells its command, the written form of the command is read as the same command.
Only a name that opens a block is refused when it stands alone at the end of its line. -/
theorem ofText_render_of_ofText {text : List Char} (h : ofText text = .ok c) :
    ofText c.render =
      if c.name = "\x7b" ∧ c.args = [] ∧ c.records = [] then
        .error (.expectedCommand (String.ofList c.render))
      else .ok c := by
  have hc := worded_of_ofText h
  split_ifs with hmark
  · obtain ⟨hname, hargs, hrecords⟩ := hmark
    exact ofText_render_brace hc hargs hrecords hname
  · exact ofText_render ⟨hc, fun hargs hrecords hname => hmark ⟨hname, hargs, hrecords⟩⟩

/-- More blanks than needed, an empty value, a comment in the block and a number that is none. -/
theorem ofText_render_of_ofText_dot :
    ofText (render ⟨5, "dot", [], [[.nan]]⟩) = .ok ⟨5, "dot", [], [[.nan]]⟩ := by
  have h : ofText "5  dot a= \x7b\n#\n NaN\n\x7d".toList = .ok ⟨5, "dot", [], [[.nan]]⟩ := by cbv
  have hrender := ofText_render_of_ofText h
  rwa [if_neg (by decide)] at hrender

/-- A name that opens a block is read in front of an empty value, which is not written. -/
theorem ofText_render_refused :
    ¬∀ (text : List Char) (c : Command), ofText text = .ok c → ofText c.render = .ok c := by
  intro h
  have hread : ofText "5 \x7b a=".toList = .ok ⟨5, "\x7b", [], []⟩ := by cbv
  cases (h _ _ hread).symm.trans (ofText_render_brace (worded_of_ofText hread) rfl rfl rfl)

end Command

end WireSchema
