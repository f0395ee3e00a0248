import Mathlib
import WireSchema.Proofs.Command.Line
import WireSchema.Proofs.Recording.Items
import WireSchema.Proofs.Recording.Metadata
import WireSchema.Recording.Text

/-!
# Text recordings are read back

A text recording is read line by line. The bytes of a line end at the byte of its line feed, which
no other character has, and the line feed at the end of a line is a blank that its reader drops. So
the lines that were written are the lines that are read: metadata first, then each command, which
takes one line or a block of lines.

* `byteLines_lineBytes` — the lines that were written are cut apart;
* `Command.writtenLines` — the lines of a command;
* `TextReader.readCommand_metadata`, `TextReader.readCommand_command` — reading them;
* `TextReader.ofBytes_written` — a recording is opened with its metadata;
* `TextReader.yields_of_commands` — its commands are read, one after the other;
* `TextReader.exists_yields_of_written` — both together.
-/

namespace WireSchema

open WireSchema.Text

/-! ### Lines of bytes -/

/-- The bytes of a line with its end. -/
def lineBytes (line : List Char) : Bytes :=
  Utf8.encode (line ++ ['\n'])

/-- A line ends at its line feed. -/
theorem byteLinesFrom_append {s : Bytes} (hs : 0x0a ∉ s) (line : Bytes) (done : List Bytes)
    (rest : Bytes) :
    byteLinesFrom line done (s ++ 0x0a :: rest)
      = byteLinesFrom [] ((line.reverse ++ s ++ [0x0a]) :: done) rest := by
  induction s generalizing line with
  | nil =>
    rw [List.nil_append, byteLinesFrom, if_pos rfl, List.reverse_cons, List.append_nil]
  | cons b s ih =>
    rw [List.mem_cons, not_or] at hs
    rw [List.cons_append, byteLinesFrom, if_neg (Ne.symm hs.1), ih hs.2, List.reverse_cons]
    simp only [List.append_assoc, List.cons_append, List.nil_append]

theorem byteLinesFrom_lineBytes {lines : List (List Char)} (h : ∀ line ∈ lines, '\n' ∉ line)
    (done : List Bytes) :
    byteLinesFrom [] done (lines.map lineBytes).flatten = done.reverse ++ lines.map lineBytes := by
  induction lines generalizing done with
  | nil => exact (List.append_nil _).symm
  | cons line lines ih =>
    rw [List.forall_mem_cons] at h
    have hline : lineBytes line = Utf8.encode line ++ [0x0a] := Utf8.encode_append line ['\n']
    rw [List.map_cons, List.flatten_cons, hline, List.append_assoc, List.singleton_append,
      byteLinesFrom_append (Utf8.lineFeed_not_mem_encode h.1), ih h.2, List.reverse_nil,
      List.nil_append, List.reverse_cons, List.append_assoc, List.singleton_append]

/-- Lines that were written one after the other are cut apart. -/
theorem byteLines_lineBytes {lines : List (List Char)} (h : ∀ line ∈ lines, '\n' ∉ line) :
    byteLines (lines.map lineBytes).flatten = lines.map lineBytes :=
  byteLinesFrom_lineBytes h []

/-- The end of a line does not matter to its reader. -/
theorem LineReader.read_lineFeed (r : LineReader) (line : List Char) :
    r.read (line ++ ['\n']) = r.read line := by
  unfold read
  rw [trim_append_blank (by decide)]

/-! ### The lines of metadata -/

/-- The line of a metadata text, without its end. -/
def metadataText (entry : String × String) : List Char :=
  '!' :: (entry.1.toList ++ '=' :: escape entry.2.toList)

/-- A key that can stand in a metadata line: it has no blanks around it, no equals sign and no line
feed. -/
def IsLineKey (key : String) : Prop :=
  trim key.toList = key.toList ∧ '=' ∉ key.toList ∧ '\n' ∉ key.toList

theorem encode_textHeader (m : Metadata) :
    Utf8.encode (textHeader m) = ((m.entries.map metadataText).map lineBytes).flatten := by
  unfold textHeader
  induction m.entries with
  | nil => rfl
  | cons entry entries ih =>
    have hline : metadataLine entry = metadataText entry ++ ['\n'] := by
      simp only [metadataLine, metadataText, List.cons_append, List.append_assoc]
    rw [List.flatMap_cons, Utf8.encode_append, ih, hline]
    rfl

theorem lineFeed_not_mem_metadataText {entry : String × String} (h : IsLineKey entry.1) :
    '\n' ∉ metadataText entry := by
  intro hmem
  rcases List.mem_cons.mp hmem with heq | hmem
  · exact absurd heq (by decide)
  rcases List.mem_append.mp hmem with hmem | hmem
  · exact h.2.2 hmem
  rcases List.mem_cons.mp hmem with heq | hmem
  · exact absurd heq (by decide)
  · have hblank : isBlank '\n' = false := not_isBlank_of_mem_escape hmem
    exact absurd hblank (by decide)

/-- A metadata line is read back. -/
theorem LineReader.read_metadataText {entry : String × String} (h : IsLineKey entry.1) :
    LineReader.read {} (metadataText entry) = (.ok (.metadata entry.1 entry.2), {}) := by
  have htrim : trim (metadataText entry) = metadataText entry := by
    refine trim_eq_self ?_ ?_
    · intro c hc
      cases hc
      decide
    · intro c hc
      -- The last character is the equals sign or one of the escaped value, which has no blanks.
      have hmem : c ∈ '=' :: escape entry.2.toList := by
        rw [metadataText, ← List.cons_append, List.getLast?_append_of_ne_nil] at hc
        · exact List.mem_of_getLast? hc
        · exact List.cons_ne_nil _ _
      rcases List.mem_cons.mp hmem with rfl | hmem
      · decide
      · exact not_isBlank_of_mem_escape hmem
  have hread : readMetadataLine (metadataText entry)
      (entry.1.toList ++ '=' :: escape entry.2.toList) = .ok entry := by
    rw [readMetadataLine, cutAt_append h.2.1]
    simp only [unescape_escape, h.1, String.ofList_toList]
  have hidle : isIdle (metadataText entry) = false := rfl
  show readOutside (trim (metadataText entry)) = _
  unfold readOutside
  rw [htrim, hidle, if_neg Bool.false_ne_true]
  simp only [metadataText] at hread ⊢
  simp only [hread]

/-! ### The lines of commands -/

namespace Command

variable {cmd : Command}

/-- The lines of a command, without their ends: one line, or the first one of a block, its records
and its end. -/
def writtenLines (cmd : Command) : List (List Char) :=
  if cmd.records = [] then [List.intercalate [' '] cmd.headWords]
  else List.intercalate [' '] (cmd.headWords ++ [['{']]) :: (cmd.records.map recordLine ++ [['}']])

theorem render_eq_intercalate (cmd : Command) :
    cmd.render = List.intercalate ['\n'] cmd.writtenLines := by
  unfold writtenLines
  by_cases hrecords : cmd.records = []
  · rw [if_pos hrecords, List.intercalate_singleton, ← renderHead_eq, render, hrecords]
    exact List.append_nil _
  · rw [if_neg hrecords, render_of_ne_nil hrecords]

/-- A written command and the line feed behind it are its lines with their ends. -/
theorem encode_render (cmd : Command) :
    Utf8.encode (cmd.render ++ ['\n']) = (cmd.writtenLines.map lineBytes).flatten := by
  have hjoin : ∀ (line : List Char) (lines : List (List Char)),
      Utf8.encode (List.intercalate ['\n'] (line :: lines) ++ ['\n'])
        = ((line :: lines).map lineBytes).flatten := by
    intro line lines
    induction lines generalizing line with
    | nil =>
      rw [List.intercalate_singleton]
      exact (List.append_nil _).symm
    | cons next lines ih =>
      rw [List.intercalate_cons_cons, List.append_assoc, Utf8.encode_append, ih]
      rfl
  rw [render_eq_intercalate]
  unfold writtenLines
  split <;> exact hjoin _ _

theorem lineFeed_not_mem_writtenLines (hcmd : cmd.Writable) :
    ∀ line ∈ cmd.writtenLines, '\n' ∉ line := by
  have hinline : ∀ line ∈ cmd.writtenLines, ∀ ch ∈ line, IsInLine ch := by
    intro line hline
    unfold writtenLines at hline
    split at hline
    · rw [List.mem_singleton.mp hline]
      exact isInLine_intercalate (isWord_of_mem_headWords hcmd.toWorded)
    rcases List.mem_cons.mp hline with rfl | hline
    · exact isInLine_intercalate (isWord_of_mem_append_brace hcmd.toWorded)
    rcases List.mem_append.mp hline with hline | hline
    · obtain ⟨record, -, rfl⟩ := List.mem_map.mp hline
      intro ch hch
      rcases List.mem_cons.mp hch with rfl | hch
      · exact ⟨by decide, by decide⟩
      · exact isInLine_intercalate isWord_of_mem_record ch hch
    · rw [List.mem_singleton.mp hline]
      intro ch hch
      rw [List.mem_singleton.mp hch]
      exact ⟨by decide, by decide⟩
  exact fun line hline hmem => (hinline line hline _ hmem).1 rfl

end Command

/-! ### Reading lines -/

namespace TextReader

variable {r r' : TextReader} {m : Metadata}

/-- A line that was written is read as its reader reads it. -/
theorem readLine_lineBytes {line : List Char} {rest : List Bytes} {reader reader' : LineReader}
    {n : ℕ} {pending : Option (ℕ × Command)} {result : LineResult}
    (h : reader.read line = (.ok result, reader')) :
    readLine ⟨lineBytes line :: rest, reader, n, false, pending⟩
      = (.found result, ⟨rest, reader', n + 1, false, pending⟩) := by
  unfold readLine
  rw [if_neg Bool.false_ne_true]
  simp only [lineBytes, Utf8.decode?_encode, LineReader.read_lineFeed, h]

/-- What comes after one line. -/
theorem readCommand_eq (m : Metadata) (r : TextReader) :
    readCommand m r = match r.readLine with
      | (.atEnd, r) => (.ok none, m, r)
      | (.failed e, r) => (.error e, m, r)
      | (.found (.command c), r) => (.ok (some c), m, r)
      | (.found (.metadata key value), r) => readCommand (m.insert key value) r
      | (.found _, r) => readCommand m r := by
  rw [readCommand]
  split <;> rename_i heq <;> simp only [heq]

theorem readCommand_nil (m : Metadata) (n : ℕ) (done : Bool) (pending : Option (ℕ × Command)) :
    readCommand m ⟨[], {}, n, done, pending⟩ = (.ok none, m, ⟨[], {}, n, true, pending⟩) := by
  rw [readCommand_eq]
  cases done <;> rfl

/-- Metadata lines are collected on the way to what follows them. -/
theorem readCommand_metadata {entries : List (String × String)}
    (h : ∀ entry ∈ entries, IsLineKey entry.1) (m : Metadata) (rest : List Bytes) (n : ℕ)
    (pending : Option (ℕ × Command)) :
    readCommand m ⟨(entries.map metadataText).map lineBytes ++ rest, {}, n, false, pending⟩
      = readCommand (entries.foldl (fun m p => m.insert p.1 p.2) m)
        ⟨rest, {}, n + entries.length, false, pending⟩ := by
  induction entries generalizing m n with
  | nil => rfl
  | cons entry entries ih =>
    rw [List.forall_mem_cons] at h
    rw [List.map_cons, List.map_cons, List.cons_append, readCommand_eq,
      readLine_lineBytes (LineReader.read_metadataText h.1)]
    show readCommand (m.insert entry.1 entry.2) _ = _
    rw [ih h.2, List.foldl_cons, List.length_cons, Nat.add_assoc, Nat.add_comm 1]

/-- The lines of a block are read up to its end. -/
theorem readCommand_records {records : List (List Binary64)} (h : ∀ record ∈ records, record ≠ [])
    (m : Metadata) (b : OpenBlock) (rest : List Bytes) (n : ℕ)
    (pending : Option (ℕ × Command)) :
    readCommand m ⟨(records.map Command.recordLine ++ [['}']]).map lineBytes ++ rest, ⟨some b⟩, n,
        false, pending⟩
      = (.ok (some { b.command with records := b.records.reverse ++ records }), m,
        ⟨rest, {}, n + (records.length + 1), false, pending⟩) := by
  induction records generalizing b n with
  | nil =>
    have hclose : LineReader.read ⟨some b⟩ ['}'] = (.ok (.command b.close), {}) := rfl
    rw [readCommand_eq, List.map_nil, List.nil_append, List.map_singleton, List.singleton_append,
      readLine_lineBytes hclose, List.append_nil]
    rfl
  | cons record records ih =>
    rw [List.forall_mem_cons] at h
    rw [List.map_cons, List.cons_append, List.map_cons, List.cons_append, readCommand_eq,
      readLine_lineBytes (Command.read_recordLine h.1 b)]
    show readCommand m _ = _
    rw [ih h.2, List.reverse_cons, List.append_assoc, List.singleton_append, List.length_cons]
    simp only [Nat.add_assoc, Nat.add_comm 1]

/-- The lines of a command are read as that command. -/
theorem readCommand_command {cmd : Command} (hcmd : cmd.Writable) (m : Metadata)
    (rest : List Bytes) (n : ℕ) (pending : Option (ℕ × Command)) :
    readCommand m ⟨cmd.writtenLines.map lineBytes ++ rest, {}, n, false, pending⟩
      = (.ok (some cmd), m, ⟨rest, {}, n + cmd.writtenLines.length, false, pending⟩) := by
  rw [readCommand_eq]
  unfold Command.writtenLines
  by_cases hrecords : cmd.records = []
  · rw [if_pos hrecords, List.map_singleton, List.singleton_append,
      readLine_lineBytes (Command.read_head hcmd hrecords), ← hrecords]
    rfl
  · rw [if_neg hrecords, List.map_cons, List.cons_append,
      readLine_lineBytes (Command.read_head_brace hcmd.toWorded)]
    show readCommand m _ = _
    rw [readCommand_records hcmd.records]
    simp only [List.reverse_nil, List.nil_append, List.length_cons, List.length_append,
      List.length_map, List.length_nil, Nat.zero_add, Nat.add_assoc, Nat.add_comm 1]

/-! ### All commands -/

/-- The lines of commands. -/
def commandLines (cmds : List Command) : List Bytes :=
  (cmds.flatMap Command.writtenLines).map lineBytes

theorem commandLines_cons (cmd : Command) (cmds : List Command) :
    commandLines (cmd :: cmds) = cmd.writtenLines.map lineBytes ++ commandLines cmds := by
  rw [commandLines, List.flatMap_cons, List.map_append]
  rfl

/-- A reader that has these commands still to give: the first one may have been read ahead, and
without any the end may have been seen. -/
inductive Holds : TextReader → List Command → Prop
  | ahead (cmd : Command) (cmds : List Command) (n k : ℕ) :
      Holds ⟨commandLines cmds, {}, n, false, some (k, cmd)⟩ (cmd :: cmds)
  | inFront (cmds : List Command) (n : ℕ) : Holds ⟨commandLines cmds, {}, n, false, none⟩ cmds
  | ended (n : ℕ) : Holds ⟨[], {}, n, true, none⟩ []

/-- A recording that was written is opened with its metadata, at its commands. -/
theorem ofBytes_written {cmds : List Command} (hkeys : ∀ entry ∈ m.entries, IsLineKey entry.1)
    (hcmds : ∀ cmd ∈ cmds, cmd.Writable) :
    ∃ r, ofBytes (Utf8.encode (textHeader m) ++ (commandLines cmds).flatten) = .ok (m, r) ∧
      r.Holds cmds := by
  have hlines : byteLines (Utf8.encode (textHeader m) ++ (commandLines cmds).flatten)
      = (m.entries.map metadataText).map lineBytes ++ commandLines cmds := by
    have hlineFeed : ∀ line ∈ m.entries.map metadataText ++ cmds.flatMap Command.writtenLines,
        '\n' ∉ line := by
      intro line hline
      rcases List.mem_append.mp hline with hline | hline
      · obtain ⟨entry, hentry, rfl⟩ := List.mem_map.mp hline
        exact lineFeed_not_mem_metadataText (hkeys entry hentry)
      · obtain ⟨cmd, hcmd, hline⟩ := List.mem_flatMap.mp hline
        exact Command.lineFeed_not_mem_writtenLines (hcmds cmd hcmd) line hline
    rw [encode_textHeader, ← List.flatten_append, commandLines, ← List.map_append,
      byteLines_lineBytes hlineFeed]
  have hmetadata : m.entries.foldl (fun m p => m.insert p.1 p.2) .empty = m :=
    m.ofPairs_entries
  unfold ofBytes
  rw [hlines, readCommand_metadata hkeys, hmetadata]
  cases cmds with
  | nil =>
    refine ⟨_, ?_, .ended (0 + m.entries.length)⟩
    have hnone : commandLines [] = [] := rfl
    rw [hnone, readCommand_nil]
  | cons cmd cmds =>
    rw [List.forall_mem_cons] at hcmds
    rw [commandLines_cons, readCommand_command hcmds.1]
    exact ⟨_, rfl, .ahead cmd cmds _ _⟩

variable {c : Catalogue} {options : CommandOptions}

/-- The next command is read, and its message is the next item. -/
theorem Holds.next_cons {cmd : Command} {cmds : List Command} (h : r.Holds (cmd :: cmds))
    (hcmd : cmd.Writable) {msg : Message} (hmsg : c.ofCommand options cmd = .ok msg) :
    ∃ r', r.next c options = (some (.ok msg), r') ∧ r'.Holds cmds := by
  have hmessage : ∀ line, messageOf c options line cmd = .ok (some msg) := by
    intro line
    rw [messageOf, hmsg]
  cases h with
  | ahead _ _ n k =>
    refine ⟨_, ?_, .inFront cmds n⟩
    rw [next, read]
    simp only [hmessage]
  | inFront _ n =>
    refine ⟨_, ?_, .inFront cmds (n + cmd.writtenLines.length)⟩
    rw [next, read, commandLines_cons]
    simp only [readCommand_command hcmd, hmessage]

/-- Without commands the end is reported, and all later calls report it too. -/
theorem Holds.next_nil (h : r.Holds []) :
    ∃ r', r.next c options = (none, r') ∧ r'.next c options = (none, r') := by
  have hnext : ∀ n done, next c options ⟨[], {}, n, done, none⟩
      = (none, ⟨[], {}, n, true, none⟩) := by
    intro n done
    rw [next, read]
    simp only [readCommand_nil]
  cases h with
  | inFront _ n => exact ⟨_, hnext n false, hnext n true⟩
  | ended n => exact ⟨_, hnext n true, hnext n true⟩

/-- The messages of commands that were written are the items of their reader. -/
theorem yields_of_commands {cmds : List Command} {msgs : List Message}
    (h : List.Forall₂ (fun cmd msg => cmd.Writable ∧ c.ofCommand options cmd = .ok msg) cmds msgs)
    (hr : r.Holds cmds) : Yields (next c options) r (msgs.map .ok) := by
  induction h generalizing r with
  | nil =>
    obtain ⟨r', hnext, hagain⟩ :
        ∃ r', r.next c options = (none, r') ∧ r'.next c options = (none, r') := hr.next_nil
    exact .atEnd hnext hagain
  | cons hcmd _ ih =>
    obtain ⟨r', hnext, hr'⟩ := hr.next_cons hcmd.1 hcmd.2
    exact .item hnext (ih hr')

/-- A recording that was written is opened with its metadata and gives the messages of its
commands. -/
theorem exists_yields_of_written (hkeys : ∀ entry ∈ m.entries, IsLineKey entry.1)
    {cmds : List Command} {msgs : List Message}
    (h : List.Forall₂ (fun cmd msg => cmd.Writable ∧ c.ofCommand options cmd = .ok msg) cmds msgs) :
    ∃ r, ofBytes (Utf8.encode (textHeader m) ++ (commandLines cmds).flatten) = .ok (m, r) ∧
      Yields (next c options) r (msgs.map .ok) := by
  have hwritable : ∀ cmd ∈ cmds, cmd.Writable := by
    intro cmd hcmd
    obtain ⟨msg, -, hmsg⟩ := exists_of_forall₂ h.flip hcmd
    exact hmsg.1
  obtain ⟨r, hopen, hholds⟩ := ofBytes_written hkeys hwritable
  exact ⟨r, hopen, yields_of_commands h hholds⟩

/-- Every message that is read is the message of a command. -/
theorem exists_command_of_next {msg : Message}
    (h : r.next c options = (some (.ok msg), r')) : ∃ cmd, c.ofCommand options cmd = .ok msg := by
  have hmessage : ∀ line cmd, messageOf c options line cmd = .ok (some msg) →
      c.ofCommand options cmd = .ok msg := by
    intro line cmd hmsg
    unfold messageOf at hmsg
    split at hmsg
    · rename_i hof
      cases hmsg
      exact hof
    · cases hmsg
  unfold next at h
  split at h <;> cases h
  rename_i hread
  unfold read at hread
  split at hread
  · exact ⟨_, hmessage _ _ (Prod.mk.inj hread).1⟩
  split at hread
  · cases hread
  · cases hread
  · exact ⟨_, hmessage _ _ (Prod.mk.inj hread).1⟩

end TextReader

end WireSchema
