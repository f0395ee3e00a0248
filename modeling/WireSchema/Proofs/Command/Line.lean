import Mathlib
import WireSchema.Proofs.Binary64.Text
import WireSchema.Proofs.Command.Escape
import WireSchema.Proofs.Results
import WireSchema.Proofs.Text.Split

/-!
# Reading written commands

The written form of a command is read back as that command, if it can be written as words: the name
and the keys have no blanks, no key has an equals sign, no value is empty and no record is, and a
name that is the mark which opens a block does not stand at the end of the line. The values are
arbitrary.

* `Command.Worded`, `Command.Writable` — the commands that can be written;
* `Command.headWords` — the words of the first line;
* `commandOfLines_records` — the lines of a block;
* `Command.ofText_render` — a written command is read back.
-/

namespace WireSchema

open WireSchema.Text

/-- A command whose parts are words. -/
structure Command.Worded (c : Command) : Prop where
  name : IsWord c.name.toList
  keys : ∀ arg ∈ c.args, '=' ∉ arg.1.toList ∧ ∀ ch ∈ arg.1.toList, isBlank ch = false
  values : ∀ arg ∈ c.args, arg.2 ≠ ""
  records : ∀ record ∈ c.records, record ≠ []

/-- A command that can be written as words: the last word of its line does not open a block if there
is none. -/
structure Command.Writable (c : Command) : Prop extends c.Worded where
  name_ne_brace : c.args = [] → c.records = [] → c.name ≠ "\x7b"

/-! ### Words -/

/-- The word of an argument. -/
def argumentWord (arg : String × String) : List Char :=
  arg.1.toList ++ '=' :: escape arg.2.toList

/-- The words of the first line, without an opening brace. -/
def Command.headWords (c : Command) : List (List Char) :=
  numeral 10 c.userId.toNat :: c.name.toList :: c.args.map argumentWord

theorem isWord_numeral (n : ℕ) : IsWord (numeral 10 n) :=
  ⟨Nat.toDigits_ne_nil, fun _ hc =>
    (isDigitChar_of_mem_numeral (by decide) (by decide) hc).not_isBlank⟩

theorem isWord_positional (x : Binary64) : IsWord x.positional := by
  obtain ⟨hne, hall⟩ := x.positional_chars
  refine ⟨hne, fun c hc => ?_⟩
  refine Binary64.IsNumberChar.elim (P := fun c => isBlank c = false) (by decide) ?_ (hall c hc)
  simp [isBlank]

theorem Command.isWord_argumentWord {c : Command} (hc : c.Worded) {arg : String × String}
    (harg : arg ∈ c.args) : IsWord (argumentWord arg) := by
  refine ⟨List.append_ne_nil_of_right_ne_nil _ (List.cons_ne_nil _ _), fun ch hch => ?_⟩
  rcases List.mem_append.mp hch with hch | hch
  · exact (hc.keys arg harg).2 ch hch
  rcases List.mem_cons.mp hch with rfl | hch
  · decide
  · exact not_isBlank_of_mem_escape hch

namespace Command

variable {c : Command}

theorem isWord_of_mem_headWords (hc : c.Worded) : ∀ w ∈ c.headWords, IsWord w := by
  intro w hw
  rcases List.mem_cons.mp hw with rfl | hw
  · exact isWord_numeral _
  rcases List.mem_cons.mp hw with rfl | hw
  · exact hc.name
  · obtain ⟨arg, harg, rfl⟩ := List.mem_map.mp hw
    exact isWord_argumentWord hc harg

/-- The first line is its words, with a space between them. -/
theorem renderHead_eq (c : Command) : c.renderHead = List.intercalate [' '] c.headWords := by
  rw [headWords, intercalate_cons, List.flatMap_cons, List.flatMap_map]
  rfl

/-! ### The first line -/

/-- The last word of the first line does not open a block if there are no records. -/
theorem getLast?_headWords (hc : c.Writable) (hrecords : c.records = []) :
    c.headWords.getLast? ≠ some ['{'] := by
  intro h
  rcases List.eq_nil_or_concat c.args with hargs | ⟨args, arg, hargs⟩
  · rw [headWords, hargs] at h
    exact hc.name_ne_brace hargs hrecords (String.toList_inj.mp (Option.some.inj h))
  · have hlast : c.headWords.getLast? = some (argumentWord arg) := by
      rw [headWords, hargs, List.concat_eq_append, List.map_append, List.map_singleton,
        ← List.cons_append, ← List.cons_append, List.getLast?_concat]
    have hequals : '=' ∈ argumentWord arg := List.mem_append_right _ List.mem_cons_self
    rw [Option.some.inj (hlast.symm.trans h)] at hequals
    exact absurd (List.mem_singleton.mp hequals) (by decide)

/-- One more argument is read. -/
theorem addWord_argumentWord (hc : c.Worded) {arg : String × String} (harg : arg ∈ c.args)
    (before : Command) :
    before.addWord (argumentWord arg) = .ok { before with args := before.args ++ [arg] } := by
  rw [addWord, argumentWord, cutAt_append (hc.keys arg harg).1]
  simp only [unescape_escape, String.ofList_toList, set, if_neg (hc.values arg harg)]

theorem foldlM_addWord (hc : c.Worded) {args : List (String × String)} (hargs : args ⊆ c.args)
    (before : Command) :
    (args.map argumentWord).foldlM addWord before
      = .ok { before with args := before.args ++ args } := by
  induction args generalizing before with
  | nil =>
    rw [List.append_nil]
    rfl
  | cons arg args ih =>
    rw [List.map_cons, List.foldlM_cons, addWord_argumentWord hc (hargs List.mem_cons_self)]
    show (args.map argumentWord).foldlM addWord _ = _
    rw [ih (fun a ha => hargs (List.mem_cons_of_mem _ ha)), List.append_assoc,
      List.singleton_append]

/-- The words of the first line are read as the command without its records. -/
theorem ofWords_headWords (hc : c.Worded) (line : List Char) :
    ofWords line c.headWords = .ok { c with records := [] } := by
  rw [headWords, ofWords, readBelow_numeral (by decide) (by decide) c.userId.toNat_lt]
  simp only [String.ofList_toList, UInt8.ofNat_toNat]
  exact foldlM_addWord hc (fun _ h => h) _

/-- The first line starts with a digit. -/
theorem exists_cons_headWords (c : Command) (more : List (List Char)) :
    ∃ d tail, List.intercalate [' '] (c.headWords ++ more) = d :: tail ∧ IsDigitChar d := by
  obtain ⟨d, digits, hdigits⟩ := List.exists_cons_of_ne_nil (isWord_numeral c.userId.toNat).1
  have hd : IsDigitChar d :=
    isDigitChar_of_mem_numeral (by decide) (by decide)
      (show d ∈ numeral 10 c.userId.toNat from hdigits ▸ List.mem_cons_self)
  rw [headWords, List.cons_append, intercalate_cons, hdigits]
  exact ⟨d, _, rfl, hd⟩

/-- A line that starts with a digit is neither skipped nor metadata. -/
theorem readOutside_of_digit {d : Char} (hd : IsDigitChar d) (tail : List Char) :
    LineReader.readOutside (d :: tail) = match readCommandLine (d :: tail) with
      | .ok (c, true) => (.ok .needMore, ⟨some ⟨c, []⟩⟩)
      | .ok (c, false) => (.ok (.command c), ⟨none⟩)
      | .error e => (.error e, ⟨none⟩) := by
  have hidle : LineReader.isIdle (d :: tail) = false := beq_eq_false_iff_ne.mpr hd.ne_sign.2.2.1
  unfold LineReader.readOutside
  rw [hidle, if_neg Bool.false_ne_true]
  split
  · rename_i heq
    exact absurd (List.cons.inj heq).1 hd.ne_sign.2.2.2
  · rfl

theorem words_headWords (hc : c.Worded) :
    words (List.intercalate [' '] c.headWords) = c.headWords :=
  words_intercalate (by decide) (isWord_of_mem_headWords hc)

theorem isWord_of_mem_append_brace (hc : c.Worded) :
    ∀ w ∈ c.headWords ++ [['{']], IsWord w := by
  intro w hw
  rcases List.mem_append.mp hw with hw | hw
  · exact isWord_of_mem_headWords hc w hw
  · rw [List.mem_singleton.mp hw]
    exact ⟨List.cons_ne_nil _ _, by simp [isBlank]⟩

/-- The first line of a command without records is the whole command. -/
theorem read_head (hc : c.Writable) (hrecords : c.records = []) :
    LineReader.read {} (List.intercalate [' '] c.headWords)
      = (.ok (.command { c with records := [] }), ⟨none⟩) := by
  have hopens : (c.headWords.getLast? == some ['{']) = false :=
    beq_eq_false_iff_ne.mpr (getLast?_headWords hc hrecords)
  have hline : readCommandLine (List.intercalate [' '] c.headWords)
      = .ok ({ c with records := [] }, false) := by
    simp only [readCommandLine, words_headWords hc.toWorded, hopens, Bool.false_eq_true, if_false,
      ofWords_headWords hc.toWorded]
  obtain ⟨d, tail, htail, hd⟩ := c.exists_cons_headWords []
  rw [List.append_nil] at htail
  show LineReader.readOutside (trim (List.intercalate [' '] c.headWords)) = _
  rw [trim_intercalate (isWord_of_mem_headWords hc.toWorded), htail, readOutside_of_digit hd,
    ← htail, hline]

/-- The first line of a command with records opens a block. -/
theorem read_head_brace (hc : c.Worded) :
    LineReader.read {} (List.intercalate [' '] (c.headWords ++ [['{']]))
      = (.ok .needMore, ⟨some ⟨{ c with records := [] }, []⟩⟩) := by
  have hopens : ((c.headWords ++ [['{']]).getLast? == some ['{']) = true := by
    rw [List.getLast?_concat]
    rfl
  have hline : readCommandLine (List.intercalate [' '] (c.headWords ++ [['{']]))
      = .ok ({ c with records := [] }, true) := by
    simp only [readCommandLine, words_intercalate (show isBlank ' ' = true by decide)
      (isWord_of_mem_append_brace hc), hopens, if_true, List.dropLast_concat, ofWords_headWords hc]
  obtain ⟨d, tail, htail, hd⟩ := c.exists_cons_headWords [['{']]
  show LineReader.readOutside (trim (List.intercalate [' '] (c.headWords ++ [['{']]))) = _
  rw [trim_intercalate (isWord_of_mem_append_brace hc), htail, readOutside_of_digit hd, ← htail,
    hline]

/-! ### Blocks -/

/-- The line of a record. -/
def recordLine (record : List Binary64) : List Char :=
  '\t' :: renderRecord record

theorem isWord_of_mem_record {record : List Binary64} :
    ∀ w ∈ record.map Binary64.positional, IsWord w := by
  intro w hw
  obtain ⟨x, -, rfl⟩ := List.mem_map.mp hw
  exact isWord_positional x

theorem exists_cons_renderRecord {record : List Binary64} (hne : record ≠ []) :
    ∃ d tail, renderRecord record = d :: tail ∧ Binary64.IsNumberChar d := by
  obtain ⟨x, xs, rfl⟩ := List.exists_cons_of_ne_nil hne
  obtain ⟨hword, hall⟩ := x.positional_chars
  obtain ⟨d, tail, htail⟩ := List.exists_cons_of_ne_nil hword
  rw [renderRecord, List.map_cons, intercalate_cons, htail]
  exact ⟨d, _, rfl, hall d (htail ▸ List.mem_cons_self)⟩

/-- The numbers of a record are read back. -/
theorem readRecordLine_renderRecord (record : List Binary64) :
    readRecordLine (renderRecord record) = .ok record := by
  unfold readRecordLine
  rw [renderRecord, words_intercalate (by decide) isWord_of_mem_record, mapM_eq_ok,
    List.forall₂_map_left_iff, List.forall₂_same]
  intro x _
  rw [x.read?_positional]

/-- The line of a record adds it to the block that is open. -/
theorem read_recordLine {record : List Binary64} (hne : record ≠ []) (b : OpenBlock) :
    LineReader.read ⟨some b⟩ (recordLine record)
      = (.ok .needMore, ⟨some { b with records := record :: b.records }⟩) := by
  obtain ⟨d, tail, htail, hd⟩ := exists_cons_renderRecord hne
  have hmark : d ≠ '}' ∧ d ≠ '#' :=
    Binary64.IsNumberChar.elim (P := fun d => d ≠ '}' ∧ d ≠ '#') (by decide) (by simp) hd
  have hbrace : d :: tail ≠ ['}'] := fun h => hmark.1 (List.cons.inj h).1
  have hidle : LineReader.isIdle (d :: tail) = false := beq_eq_false_iff_ne.mpr hmark.2
  have htrim : trim (recordLine record) = d :: tail := by
    rw [recordLine, trim_cons_blank (by decide), ← htail, renderRecord,
      trim_intercalate isWord_of_mem_record]
  show LineReader.readInBlock b (trim (recordLine record)) = _
  rw [htrim, LineReader.readInBlock, if_neg hbrace, hidle, if_neg Bool.false_ne_true, ← htail,
    readRecordLine_renderRecord]

/-- The lines of a block are read as its records. -/
theorem commandOfLines_records {records : List (List Binary64)} (h : ∀ r ∈ records, r ≠ [])
    (b : OpenBlock) :
    commandOfLines ⟨some b⟩ none (records.map recordLine ++ [['}']])
      = .ok { b.command with records := b.records.reverse ++ records } := by
  induction records generalizing b with
  | nil =>
    rw [List.append_nil]
    rfl
  | cons record records ih =>
    rw [List.forall_mem_cons] at h
    rw [List.map_cons, List.cons_append, commandOfLines, read_recordLine h.1]
    simp only [ih h.2, List.reverse_cons, List.append_assoc, List.singleton_append]

/-! ### Commands -/

/-- Characters that do not end a line. -/
def IsInLine (ch : Char) : Prop :=
  ch ≠ '\n' ∧ ch ≠ '\r'

theorem isInLine_of_not_isBlank {ch : Char} (h : isBlank ch = false) : IsInLine ch := by
  refine ⟨?_, ?_⟩
  · rintro rfl
    exact absurd h (by decide)
  · rintro rfl
    exact absurd h (by decide)

theorem isInLine_intercalate {ws : List (List Char)} (h : ∀ w ∈ ws, IsWord w) :
    ∀ ch ∈ List.intercalate [' '] ws, IsInLine ch :=
  forall_mem_intercalate ⟨by decide, by decide⟩
    (fun w hw ch hch => isInLine_of_not_isBlank ((h w hw).2 ch hch))

theorem line_of_isInLine {line : List Char} (h : ∀ ch ∈ line, IsInLine ch) :
    '\n' ∉ line ∧ line.getLast? ≠ some '\r' :=
  ⟨fun hmem => (h _ hmem).1 rfl, fun hlast => (h _ (List.mem_of_getLast? hlast)).2 rfl⟩

/-- The first line with the mark that opens a block. -/
theorem intercalate_append_brace (c : Command) :
    List.intercalate [' '] (c.headWords ++ [['{']]) = c.renderHead ++ [' ', '{'] := by
  rw [renderHead_eq, headWords, List.cons_append, intercalate_cons, intercalate_cons,
    List.flatMap_append, List.append_assoc]
  rfl

/-- A command with records is written as its first line, a line for each record, and the end of the
block. -/
theorem render_of_ne_nil (h : c.records ≠ []) :
    c.render = List.intercalate ['\n'] (List.intercalate [' '] (c.headWords ++ [['{']])
      :: (c.records.map recordLine ++ [['}']])) := by
  rw [render, renderBlock, List.isEmpty_eq_false_iff.mpr h, if_neg Bool.false_ne_true,
    intercalate_cons, List.flatMap_append, List.flatMap_map, intercalate_append_brace]
  simp only [List.append_assoc]
  rfl

/-- A command without records is written as one line. -/
theorem lines_render_of_nil (hc : c.Worded) (hrecords : c.records = []) :
    lines c.render = [List.intercalate [' '] c.headWords] := by
  have hhead : c.render = List.intercalate ['\n'] ([] ++ [List.intercalate [' '] c.headWords]) := by
    rw [render, hrecords, renderHead_eq, List.nil_append, List.intercalate_singleton]
    exact List.append_nil _
  have hline := line_of_isInLine (isInLine_intercalate (isWord_of_mem_headWords hc))
  obtain ⟨d, tail, htail, -⟩ := c.exists_cons_headWords []
  rw [List.append_nil] at htail
  have hne : List.intercalate [' '] c.headWords ≠ [] := by
    rw [htail]
    exact List.cons_ne_nil _ _
  have hinit : ∀ line ∈ ([] : List (List Char)), '\n' ∉ line ∧ line.getLast? ≠ some '\r' :=
    fun line hmem => absurd hmem List.not_mem_nil
  rw [hhead, lines_intercalate hinit hline.1 hne, List.nil_append]

/-- A command with records is written as its first line, a line for each record, and the end. -/
theorem lines_render_of_ne_nil (hc : c.Worded) (hrecords : c.records ≠ []) :
    lines c.render = List.intercalate [' '] (c.headWords ++ [['{']])
      :: (c.records.map recordLine ++ [['}']]) := by
  rw [render_of_ne_nil hrecords, ← List.cons_append,
    lines_intercalate ?_ (by decide) (List.cons_ne_nil _ _)]
  intro line hmem
  rcases List.mem_cons.mp hmem with rfl | hmem
  · exact line_of_isInLine (isInLine_intercalate (isWord_of_mem_append_brace hc))
  · obtain ⟨record, -, rfl⟩ := List.mem_map.mp hmem
    refine line_of_isInLine fun ch hch => ?_
    rcases List.mem_cons.mp hch with rfl | hch
    · exact ⟨by decide, by decide⟩
    · exact isInLine_intercalate isWord_of_mem_record ch hch

/-- A command that is written is read back. -/
theorem ofText_render (hc : c.Writable) : ofText c.render = .ok c := by
  by_cases hrecords : c.records = []
  · rw [ofText, lines_render_of_nil hc.toWorded hrecords, commandOfLines, read_head hc hrecords,
      ← hrecords]
    rfl
  · rw [ofText, lines_render_of_ne_nil hc.toWorded hrecords, commandOfLines,
      read_head_brace hc.toWorded]
    exact commandOfLines_records hc.records _

end Command

end WireSchema
