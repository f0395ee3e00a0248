import Mathlib
import WireSchema.Proofs.Command.Reading
import WireSchema.Proofs.Recording.Progress

/-!
# Text recordings, line by line

What a text recording holds can be told from its lines alone. One reader of lines reads them in
order: a command gives its message or the error of its line, a line that is rejected gives an error,
and a block that is still open at the end gives one more. The metadata is that of the lines in front
of the first command. A recording can be opened if no line in front of its first command is
rejected and the input does not end in a block before it, and then these are its metadata and its
items.

* `LineReader.outcomes`, `LineReader.after` — one reader, line by line;
* `TextReader.opening`, `TextReader.itemsFrom`, `TextReader.contents` — what lines hold;
* `TextReader.gives_contents` — opening a recording and reading its items gives just this;
* `TextReader.gives_properLines`, `TextReader.gives_lines` — the same for a text that line feeds cut
  into pieces, and for any text.
-/

namespace WireSchema

open WireSchema.Text

/-! ### One reader, line by line -/

namespace LineReader

/-- The results of lines that are read one after the other. -/
def outcomes (r : LineReader) : List (List Char) → List (Except LineFault LineResult)
  | [] => []
  | line :: rest => (r.read line).1 :: (r.read line).2.outcomes rest

/-- The reader behind some lines. -/
def after (r : LineReader) (lines : List (List Char)) : LineReader :=
  lines.foldl (fun r line => (r.read line).2) r

@[simp]
theorem outcomes_cons (r : LineReader) (line : List Char) (rest : List (List Char)) :
    r.outcomes (line :: rest) = (r.read line).1 :: (r.read line).2.outcomes rest :=
  rfl

@[simp]
theorem after_nil (r : LineReader) : r.after [] = r :=
  rfl

@[simp]
theorem after_cons (r : LineReader) (line : List Char) (rest : List (List Char)) :
    r.after (line :: rest) = (r.read line).2.after rest :=
  rfl

theorem after_append (r : LineReader) (lines more : List (List Char)) :
    r.after (lines ++ more) = (r.after lines).after more :=
  List.foldl_append

end LineReader

/-! ### What lines hold -/

namespace TextReader

variable {c : Catalogue} {options : CommandOptions}

/-- The item of a command on a line: its message, or the error of the line. An overflow, at which
the program stops, stands in its place. -/
def commandItem (c : Catalogue) (options : CommandOptions) (line : ℕ) (cmd : Command) :
    Except RecordingError Message :=
  (c.ofCommand options cmd).mapError (.ofCommandOn line)

/-- The item of the result of a line, if it has one. -/
def lineItem? (c : Catalogue) (options : CommandOptions) (line : ℕ) :
    Except LineFault LineResult → Option (Except RecordingError Message)
  | .ok (.command cmd) => some (commandItem c options line cmd)
  | .ok _ => none
  | .error e => some (.error (.line line (.malformed e)))

/-- The item of the end of the input behind `n` lines, if it has one. -/
def endItem? (r : LineReader) (n : ℕ) : Option (Except RecordingError Message) :=
  match r.finish.1 with
  | .ok () => none
  | .error e => some (.error (.line n (.malformed e)))

/-- The items of lines behind `n` lines, without the end of the input. -/
def lineItems (c : Catalogue) (options : CommandOptions) (r : LineReader) (n : ℕ) :
    List (List Char) → List (Except RecordingError Message)
  | [] => []
  | line :: rest =>
    (lineItem? c options (n + 1) (r.read line).1).toList
      ++ lineItems c options (r.read line).2 (n + 1) rest

/-- The items of the last lines of a recording, behind `n` lines. -/
def itemsFrom (c : Catalogue) (options : CommandOptions) (r : LineReader) (n : ℕ)
    (lines : List (List Char)) : List (Except RecordingError Message) :=
  lineItems c options r n lines ++ (endItem? (r.after lines) (n + lines.length)).toList

/-- The metadata of the lines in front of the first command, added to that of `n` lines before; an
error if one of these lines is rejected, or if the input ends among them in a block. -/
def opening (m : Metadata) (r : LineReader) (n : ℕ) :
    List (List Char) → Except RecordingError Metadata
  | [] =>
    match r.finish.1 with
    | .ok () => .ok m
    | .error e => .error (.line n (.malformed e))
  | line :: rest =>
    match r.read line with
    | (.ok (.command _), _) => .ok m
    | (.ok (.metadata key value), r) => opening (m.insert key value) r (n + 1) rest
    | (.ok _, r) => opening m r (n + 1) rest
    | (.error e, _) => .error (.line (n + 1) (.malformed e))

/-- The metadata and the items of the lines of a recording, or the error that it cannot be opened
for. -/
def contents (c : Catalogue) (options : CommandOptions) (lines : List (List Char)) :
    Except RecordingError (Metadata × List (Except RecordingError Message)) :=
  (opening .empty {} 0 lines).map fun m => (m, itemsFrom c options {} 0 lines)

/-- Opening a recording and calling its reader up to the end gives these contents. -/
def Gives (c : Catalogue) (options : CommandOptions) (s : Bytes) :
    Except RecordingError (Metadata × List (Except RecordingError Message)) → Prop
  | .ok (m, items) => ∃ r, ofBytes s = .ok (m, r) ∧ Yields (next c options) r items
  | .error e => ofBytes s = .error e

theorem itemsFrom_nil (r : LineReader) (n : ℕ) :
    itemsFrom c options r n [] = (endItem? r n).toList :=
  rfl

theorem itemsFrom_cons (r : LineReader) (n : ℕ) (line : List Char) (rest : List (List Char)) :
    itemsFrom c options r n (line :: rest)
      = (lineItem? c options (n + 1) (r.read line).1).toList
        ++ itemsFrom c options (r.read line).2 (n + 1) rest := by
  rw [itemsFrom, itemsFrom, lineItems, List.append_assoc, List.length_cons, Nat.add_assoc,
    Nat.add_comm 1]
  rfl

theorem itemsFrom_append (r : LineReader) (n : ℕ) (lines more : List (List Char)) :
    itemsFrom c options r n (lines ++ more)
      = lineItems c options r n lines ++ itemsFrom c options (r.after lines) (n + lines.length) more
      := by
  induction lines generalizing r n with
  | nil => rfl
  | cons line lines ih =>
    rw [List.cons_append, itemsFrom_cons, ih, lineItems, List.append_assoc, List.length_cons,
      Nat.add_assoc, Nat.add_comm 1]
    rfl

/-! ### Reading the lines of a recording -/

/-- Bytes of a text that is a line but for blanks at its ends, such as a line feed. -/
def IsBytesOf (s : Bytes) (line : List Char) : Prop :=
  ∃ text, Utf8.decode? s = some text ∧ trim text = trim line

theorem isBytesOf_encode (line : List Char) : IsBytesOf (Utf8.encode line) line :=
  ⟨line, Utf8.decode?_encode line, rfl⟩

theorem isBytesOf_lineBytes (line : List Char) : IsBytesOf (lineBytes line) line :=
  ⟨line ++ ['\n'], Utf8.decode?_encode _, trim_append_blank (by decide) line⟩

variable {s : Bytes} {line : List Char} {rest : List Bytes} {reader reader' : LineReader} {n : ℕ}
  {pending : Option (ℕ × Command)}

theorem IsBytesOf.exists_decode? (h : IsBytesOf s line) :
    ∃ text, Utf8.decode? s = some text ∧ ∀ r : LineReader, r.read text = r.read line := by
  obtain ⟨text, htext, htrim⟩ := h
  refine ⟨text, htext, fun r => ?_⟩
  rw [LineReader.read, LineReader.read, htrim]

theorem readLine_of_found (h : IsBytesOf s line) {result : LineResult}
    (hread : reader.read line = (.ok result, reader')) :
    readLine ⟨s :: rest, reader, n, false, pending⟩
      = (.found result, ⟨rest, reader', n + 1, false, pending⟩) := by
  obtain ⟨text, htext, hsame⟩ := h.exists_decode?
  unfold readLine
  rw [if_neg Bool.false_ne_true]
  simp only [htext, hsame, hread]

theorem readLine_of_rejected (h : IsBytesOf s line) {e : LineFault}
    (hread : reader.read line = (.error e, reader')) :
    readLine ⟨s :: rest, reader, n, false, pending⟩
      = (.failed (.line (n + 1) (.malformed e)), ⟨rest, reader', n + 1, false, pending⟩) := by
  obtain ⟨text, htext, hsame⟩ := h.exists_decode?
  unfold readLine
  rw [if_neg Bool.false_ne_true]
  simp only [htext, hsame, hread]

theorem readLine_of_finished (hfinish : reader.finish = (.ok (), reader')) :
    readLine ⟨[], reader, n, false, pending⟩ = (.atEnd, ⟨[], reader', n, true, pending⟩) := by
  simp [readLine, hfinish]

theorem readLine_of_unterminated {e : LineFault} (hfinish : reader.finish = (.error e, reader')) :
    readLine ⟨[], reader, n, false, pending⟩
      = (.failed (.line n (.malformed e)), ⟨[], reader', n, true, pending⟩) := by
  simp [readLine, hfinish]

/-- Metadata that was found before does not matter for what is read. -/
theorem readCommand_congr (m m' : Metadata) (r : TextReader) :
    (readCommand m r).1 = (readCommand m' r).1 ∧
      (readCommand m r).2.2 = (readCommand m' r).2.2 := by
  induction hn : r.remaining using Nat.strong_induction_on generalizing m m' r with
  | h n ih =>
    rw [readCommand_eq m, readCommand_eq m']
    split <;> rename_i hline
    · exact ⟨rfl, rfl⟩
    · exact ⟨rfl, rfl⟩
    · exact ⟨rfl, rfl⟩
    · exact ih _ (hn ▸ remaining_lt_of_found hline) _ _ _ rfl
    · exact ih _ (hn ▸ remaining_lt_of_found hline) _ _ _ rfl

/-- A reader that goes on with another one gives the same items. -/
theorem next_of_readCommand_eq {r r' : TextReader} {m : Metadata} (hpending : r.pending = none)
    (hpending' : r'.pending = none) (h : readCommand .empty r = readCommand m r') :
    r.next c options = r'.next c options := by
  obtain ⟨hresult, hreader⟩ := readCommand_congr m .empty r'
  rw [next_of_readCommand hpending (m := (readCommand m r').2.1) h,
    next_of_readCommand hpending' (m := (readCommand .empty r').2.1) rfl, hresult, hreader]

/-- A command that is found gives its item. -/
theorem answer_command (cmd : Command) (r : TextReader) :
    answer c options (.ok (some cmd)) r = (some (commandItem c options r.lineNumber cmd), r) := by
  unfold answer commandItem
  cases hmsg : c.ofCommand options cmd <;> simp only [hmsg, Except.mapError]

/-- The items of a reader that is in front of lines. -/
theorem yields_itemsFrom {lines : List (List Char)} {bytes : List Bytes}
    (hlines : List.Forall₂ IsBytesOf bytes lines) (reader : LineReader) (n : ℕ) :
    Yields (next c options) ⟨bytes, reader, n, false, none⟩
      (itemsFrom c options reader n lines) := by
  induction hlines generalizing reader n with
  | nil =>
    rw [itemsFrom_nil, endItem?]
    cases hfinish : reader.finish with
    | mk result reader' =>
      have hdone : next c options ⟨[], reader', n, true, none⟩
          = (none, ⟨[], reader', n, true, none⟩) := next_of_done rfl rfl
      cases result with
      | ok u =>
        have hcommand : readCommand .empty ⟨[], reader, n, false, none⟩
            = (.ok none, .empty, ⟨[], reader', n, true, none⟩) := by
          rw [readCommand_eq, readLine_of_finished hfinish]
        exact .atEnd (next_of_readCommand rfl hcommand) hdone
      | error e =>
        have hcommand : readCommand .empty ⟨[], reader, n, false, none⟩
            = (.error (.line n (.malformed e)), .empty, ⟨[], reader', n, true, none⟩) := by
          rw [readCommand_eq, readLine_of_unterminated hfinish]
        exact .item (next_of_readCommand rfl hcommand) (.atEnd hdone hdone)
  | @cons s line bytes lines hbytes _ ih =>
    rw [itemsFrom_cons]
    cases hread : reader.read line with
    | mk outcome reader' =>
      cases outcome with
      | error e =>
        have hcommand : readCommand .empty ⟨s :: bytes, reader, n, false, none⟩
            = (.error (.line (n + 1) (.malformed e)), .empty,
              ⟨bytes, reader', n + 1, false, none⟩) := by
          rw [readCommand_eq, readLine_of_rejected hbytes hread]
        exact .item (next_of_readCommand rfl hcommand) (ih reader' (n + 1))
      | ok result =>
        have hcommand := readCommand_eq .empty ⟨s :: bytes, reader, n, false, none⟩
        rw [readLine_of_found hbytes hread] at hcommand
        cases result with
        | command cmd =>
          refine .item ((next_of_readCommand rfl hcommand).trans ?_) (ih reader' (n + 1))
          exact answer_command cmd _
        | metadata key value =>
          exact .congr (next_of_readCommand_eq rfl rfl hcommand) (ih reader' (n + 1))
        | skip => exact .congr (next_of_readCommand_eq rfl rfl hcommand) (ih reader' (n + 1))
        | needMore => exact .congr (next_of_readCommand_eq rfl rfl hcommand) (ih reader' (n + 1))

/-! ### Opening a recording -/

/-- A reader with the command that was found, if any, read ahead. -/
def ahead (r : TextReader) : Option Command → TextReader
  | none => r
  | some cmd => { r with pending := some (r.lineNumber, cmd) }

/-- Opening reads the lines up to the first command, which is then the first item. -/
theorem readCommand_opening {lines : List (List Char)} {bytes : List Bytes}
    (hlines : List.Forall₂ IsBytesOf bytes lines) (m : Metadata) (reader : LineReader) (n : ℕ) :
    match opening m reader n lines with
    | .error e => (readCommand m ⟨bytes, reader, n, false, none⟩).1 = .error e
    | .ok m' => ∃ found r', readCommand m ⟨bytes, reader, n, false, none⟩ = (.ok found, m', r') ∧
        Yields (next c options) (r'.ahead found) (itemsFrom c options reader n lines) := by
  induction hlines generalizing m reader n with
  | nil =>
    unfold opening
    cases hfinish : reader.finish with
    | mk result reader' =>
      cases result with
      | ok u =>
        have hitems : itemsFrom c options reader n [] = [] := by
          rw [itemsFrom_nil, endItem?, hfinish]
          rfl
        refine ⟨none, ⟨[], reader', n, true, none⟩, ?_, ?_⟩
        · rw [readCommand_eq, readLine_of_finished hfinish]
        · rw [hitems]
          exact .atEnd (next_of_done rfl rfl) (next_of_done rfl rfl)
      | error e =>
        show (readCommand m _).1 = _
        rw [readCommand_eq, readLine_of_unterminated hfinish]
  | @cons s line bytes lines hbytes hrest ih =>
    rw [opening, itemsFrom_cons, readCommand_eq]
    cases hread : reader.read line with
    | mk outcome reader' =>
      cases outcome with
      | error e =>
        show Prod.fst _ = _
        rw [readLine_of_rejected hbytes hread]
      | ok result =>
        rw [readLine_of_found hbytes hread]
        cases result with
        | command cmd =>
          refine ⟨some cmd, _, rfl, .item ?_ (yields_itemsFrom hrest reader' (n + 1))⟩
          simp only [next, read, ahead, messageOf, commandItem]
          cases c.ofCommand options cmd with
          | ok msg => rfl
          | error e => cases e <;> rfl
        | metadata key value => exact ih (m.insert key value) reader' (n + 1)
        | skip => exact ih m reader' (n + 1)
        | needMore => exact ih m reader' (n + 1)

theorem gives_contents {s : Bytes} {lines : List (List Char)}
    (hlines : List.Forall₂ IsBytesOf (byteLines s) lines) :
    Gives c options s (contents c options lines) := by
  have hopened := @readCommand_opening c options lines _ hlines .empty {} 0
  unfold contents
  cases hopening : opening .empty {} 0 lines with
  | error e =>
    rw [hopening] at hopened
    show ofBytes s = .error e
    unfold ofBytes
    split <;> rename_i hread <;> rw [hread] at hopened <;> cases hopened
    rfl
  | ok m =>
    rw [hopening] at hopened
    obtain ⟨found, r, hread, hitems⟩ := hopened
    refine ⟨r.ahead found, ?_, hitems⟩
    rw [ofBytes, hread]
    cases found <;> rfl

/-- A recording that is opened has the metadata and the items of its lines. -/
theorem opening_of_gives {s : Bytes} {lines : List (List Char)} {m : Metadata} {r : TextReader}
    (h : ofBytes s = .ok (m, r)) (hgives : Gives c options s (contents c options lines)) :
    opening .empty {} 0 lines = .ok m ∧
      Yields (next c options) r (itemsFrom c options {} 0 lines) := by
  unfold contents at hgives
  cases hopening : opening .empty {} 0 lines with
  | error e =>
    rw [hopening] at hgives
    cases h.symm.trans hgives
  | ok m' =>
    rw [hopening] at hgives
    obtain ⟨r', hopen, hitems⟩ := hgives
    cases h.symm.trans hopen
    exact ⟨rfl, hitems⟩

/-! ### The lines of a text -/

/-- The lines among the pieces between line feeds: behind the last line feed there is a line only if
there are characters. -/
def properLines : List (List Char) → List (List Char)
  | [] => []
  | [last] => if last = [] then [] else [last]
  | line :: next :: rest => line :: properLines (next :: rest)

theorem properLines_cons {line : List Char} {rest : List (List Char)}
    (h : line ≠ [] ∨ rest ≠ []) : properLines (line :: rest) = line :: properLines rest := by
  cases rest with
  | nil => exact if_neg (h.resolve_right (not_not.mpr rfl))
  | cons next rest => rfl

theorem properLines_append (lines : List (List Char)) {rest : List (List Char)} (h : rest ≠ []) :
    properLines (lines ++ rest) = lines ++ properLines rest := by
  induction lines with
  | nil => rfl
  | cons line lines ih =>
    have hne : lines ++ rest ≠ [] := List.append_ne_nil_of_right_ne_nil _ h
    rw [List.cons_append, properLines_cons (Or.inr hne), ih, List.cons_append]

/-- Only a blank line at the end is not among the lines of a text. -/
theorem properLines_eq_or (pieces : List (List Char)) :
    properLines pieces = pieces ∨ pieces = properLines pieces ++ [[]] := by
  induction pieces with
  | nil => exact Or.inl rfl
  | cons a pieces ih =>
    by_cases hproper : a ≠ [] ∨ pieces ≠ []
    · rw [properLines_cons hproper]
      exact ih.imp (congrArg (a :: ·)) (congrArg (a :: ·))
    · rw [not_or, not_not, not_not] at hproper
      obtain ⟨rfl, rfl⟩ := hproper
      exact Or.inr rfl

theorem mem_of_mem_properLines {pieces : List (List Char)} {line : List Char}
    (h : line ∈ properLines pieces) : line ∈ pieces := by
  rcases properLines_eq_or pieces with hproper | hproper
  · rwa [hproper] at h
  · rw [hproper]
    exact List.mem_append_left _ h

/-- Without a line feed there is one line, if there is any byte. -/
theorem byteLinesFrom_of_not_mem {s : Bytes} (hs : 0x0a ∉ s) {line : Bytes}
    (hne : line ≠ [] ∨ s ≠ []) (done : List Bytes) :
    byteLinesFrom line done s = done.reverse ++ [line.reverse ++ s] := by
  induction s generalizing line with
  | nil =>
    have hline : line.isEmpty = false :=
      List.isEmpty_eq_false_iff.mpr (hne.resolve_right (not_not.mpr rfl))
    rw [byteLinesFrom, hline, if_neg Bool.false_ne_true, List.reverse_cons, List.append_nil]
  | cons b s ih =>
    rw [List.mem_cons, not_or] at hs
    rw [byteLinesFrom, if_neg (Ne.symm hs.1), ih hs.2 (Or.inl (List.cons_ne_nil _ _)),
      List.reverse_cons, List.append_assoc, List.singleton_append]

/-- Pieces that line feeds join are cut into their lines. -/
theorem byteLinesFrom_pieces {pieces : List (List Char)} (h : ∀ a ∈ pieces, '\n' ∉ a)
    (done : List Bytes) :
    ∃ bytes, byteLinesFrom [] done (Utf8.encode (List.intercalate ['\n'] pieces))
        = done.reverse ++ bytes ∧ List.Forall₂ IsBytesOf bytes (properLines pieces) := by
  induction pieces generalizing done with
  | nil => exact ⟨[], (List.append_nil _).symm, .nil⟩
  | cons a pieces ih =>
    rw [List.forall_mem_cons] at h
    have ha := Utf8.lineFeed_not_mem_encode h.1
    cases pieces with
    | nil =>
      rw [List.intercalate_singleton]
      by_cases hempty : a = []
      · subst hempty
        exact ⟨[], (List.append_nil _).symm, .nil⟩
      · have hne : Utf8.encode a ≠ [] := by
          obtain ⟨c, tail, rfl⟩ := List.exists_cons_of_ne_nil hempty
          obtain ⟨lead, more, hlead, -⟩ := Utf8.next_encodeChar c
          rw [Utf8.encode_cons, hlead]
          exact List.cons_ne_nil _ _
        rw [properLines_cons (Or.inl hempty)]
        exact ⟨[Utf8.encode a], byteLinesFrom_of_not_mem ha (Or.inr hne) done,
          .cons (isBytesOf_encode a) .nil⟩
    | cons b pieces =>
      obtain ⟨bytes, hbytes, hlines⟩ := ih h.2 (lineBytes a :: done)
      refine ⟨lineBytes a :: bytes, ?_, .cons (isBytesOf_lineBytes a) hlines⟩
      have hline : lineBytes a = Utf8.encode a ++ [0x0a] := Utf8.encode_append a ['\n']
      have htext : Utf8.encode (List.intercalate ['\n'] (a :: b :: pieces))
          = Utf8.encode a ++ 0x0a :: Utf8.encode (List.intercalate ['\n'] (b :: pieces)) := by
        rw [List.intercalate_cons_cons, Utf8.encode_append, Utf8.encode_append, List.append_assoc]
        rfl
      rw [htext, byteLinesFrom_append ha, List.reverse_nil, List.nil_append, ← hline, hbytes,
        List.reverse_cons, List.append_assoc, List.singleton_append]

/-- The contents of a text are those of the lines that line feeds cut it into. -/
theorem gives_properLines {pieces : List (List Char)} (h : ∀ a ∈ pieces, '\n' ∉ a) :
    Gives c options (Utf8.encode (List.intercalate ['\n'] pieces))
      (contents c options (properLines pieces)) := by
  obtain ⟨bytes, hbytes, hlines⟩ := byteLinesFrom_pieces h []
  refine gives_contents ?_
  rw [byteLines, hbytes]
  exact hlines

/-- The lines of a text are the pieces between its line feeds, but for blanks at their ends. -/
theorem map_trim_lines (text : List Char) :
    (Text.lines text).map trim = (properLines (splitAtSeparators (· == '\n') text)).map trim := by
  obtain ⟨init, last, hpieces⟩ : ∃ init last,
      splitAtSeparators (· == '\n') text = init ++ [last] := by
    rcases List.eq_nil_or_concat (splitAtSeparators (· == '\n') text) with hnil | hconcat
    · exact absurd hnil (splitFrom_ne_nil [] text)
    · simpa using hconcat
  have hended : (init.map dropCarriageReturn).map trim = init.map trim := by
    rw [List.map_map]
    exact List.map_congr_left fun line _ => trim_dropCarriageReturn line
  rw [Text.lines, hpieces, properLines_append init (List.cons_ne_nil _ _), List.map_append,
    ← hended]
  simp only [List.getLast?_concat, List.dropLast_concat]
  cases last with
  | nil => exact (List.append_nil _).symm
  | cons ch last => exact List.map_append

/-- The bytes of a text are cut into the bytes of its lines. -/
theorem byteLines_encode (text : List Char) :
    List.Forall₂ IsBytesOf (byteLines (Utf8.encode text)) (Text.lines text) := by
  have hpieces : ∀ piece ∈ splitAtSeparators (· == '\n') text, '\n' ∉ piece :=
    fun piece hpiece hfeed => Bool.noConfusion (not_sep_of_mem_split hpiece '\n' hfeed)
  obtain ⟨bytes, hbytes, hlines⟩ := byteLinesFrom_pieces hpieces []
  rw [intercalate_splitAtSeparators] at hbytes
  let R := fun s line => ∃ text, Utf8.decode? s = some text ∧ trim text = line
  have htrimmed : List.Forall₂ R bytes ((Text.lines text).map trim) := by
    rw [map_trim_lines]
    exact List.forall₂_map_right_iff.mpr hlines
  rw [List.forall₂_map_right_iff] at htrimmed
  rw [byteLines, hbytes, List.reverse_nil, List.nil_append]
  exact htrimmed

/-- The contents of a text are those of its lines. -/
theorem gives_lines (c : Catalogue) (options : CommandOptions) (text : List Char) :
    Gives c options (Utf8.encode text) (contents c options (Text.lines text)) :=
  gives_contents (byteLines_encode text)

/-! ### The first command of a recording -/

/-- The result of a line that opening a recording goes on behind: no command, and no error. -/
def Quiet : Except LineFault LineResult → Prop
  | .ok (.command _) => False
  | .ok _ => True
  | .error _ => False

theorem quiet_or (o : Except LineFault LineResult) :
    Quiet o ∨ (∃ cmd, o = .ok (.command cmd)) ∨ ∃ e, o = .error e := by
  rcases o with e | result
  · exact Or.inr (Or.inr ⟨e, rfl⟩)
  · cases result with
    | command cmd => exact Or.inr (Or.inl ⟨cmd, rfl⟩)
    | _ => exact Or.inl trivial

/-- The metadata with that of the result of one more line. -/
def collect (m : Metadata) : Except LineFault LineResult → Metadata
  | .ok (.metadata key value) => m.insert key value
  | _ => m

section Opening

variable {m m' : Metadata} {r : LineReader} {n : ℕ} {line : List Char}
  {lines rest : List (List Char)}

theorem opening_cons_of_quiet (h : Quiet (r.read line).1) :
    opening m r n (line :: rest)
      = opening (collect m (r.read line).1) (r.read line).2 (n + 1) rest := by
  rw [opening]
  cases hread : r.read line with
  | mk o r' =>
    rw [hread] at h
    rcases o with e | result
    · exact h.elim
    · cases result with
      | command cmd => exact h.elim
      | _ => rfl

theorem opening_cons_of_command {cmd : Command} (h : (r.read line).1 = .ok (.command cmd)) :
    opening m r n (line :: rest) = .ok m := by
  rw [opening]
  cases hread : r.read line with
  | mk o r' =>
    rw [hread] at h
    cases h
    rfl

theorem opening_cons_of_rejected {e : LineFault} (h : (r.read line).1 = .error e) :
    opening m r n (line :: rest) = .error (.line (n + 1) (.malformed e)) := by
  rw [opening]
  cases hread : r.read line with
  | mk o r' =>
    rw [hread] at h
    cases h
    rfl

/-- What stands behind the first command does not matter. -/
theorem opening_append_of_command (h : ∃ cmd, .ok (.command cmd) ∈ r.outcomes lines) :
    opening m r n (lines ++ rest) = opening m r n lines := by
  induction lines generalizing m r n with
  | nil =>
    obtain ⟨cmd, hcmd⟩ := h
    cases hcmd
  | cons line lines ih =>
    rw [List.cons_append]
    rcases quiet_or (r.read line).1 with hquiet | ⟨cmd, hcmd⟩ | ⟨e, he⟩
    · rw [opening_cons_of_quiet hquiet, opening_cons_of_quiet hquiet, ih]
      obtain ⟨cmd, hcmd⟩ := h
      rw [LineReader.outcomes_cons, List.mem_cons] at hcmd
      rcases hcmd with hcmd | hcmd
      · rw [← hcmd] at hquiet
        exact hquiet.elim
      · exact ⟨cmd, hcmd⟩
    · rw [opening_cons_of_command hcmd, opening_cons_of_command hcmd]
    · rw [opening_cons_of_rejected he, opening_cons_of_rejected he]

/-- Lines without a command and without an error are passed. -/
theorem opening_append_of_quiet (h : ∀ o ∈ r.outcomes lines, Quiet o) :
    opening m r n (lines ++ rest)
      = opening ((r.outcomes lines).foldl collect m) (r.after lines) (n + lines.length) rest := by
  induction lines generalizing m r n with
  | nil => rfl
  | cons line lines ih =>
    rw [LineReader.outcomes_cons, List.forall_mem_cons] at h
    rw [List.cons_append, opening_cons_of_quiet h.1, ih h.2, List.length_cons, Nat.add_assoc,
      Nat.add_comm 1]
    rfl

/-- Where a recording is opened, no line in front of its first command is rejected. -/
theorem quiet_of_opening (hopening : opening m r n (lines ++ rest) = .ok m')
    (h : ¬∃ cmd, .ok (.command cmd) ∈ r.outcomes lines) : ∀ o ∈ r.outcomes lines, Quiet o := by
  induction lines generalizing m r n with
  | nil => exact fun o ho => absurd ho List.not_mem_nil
  | cons line lines ih =>
    rw [LineReader.outcomes_cons] at h ⊢
    rw [List.cons_append] at hopening
    rcases quiet_or (r.read line).1 with hquiet | ⟨cmd, hcmd⟩ | ⟨e, he⟩
    · rw [opening_cons_of_quiet hquiet] at hopening
      refine List.forall_mem_cons.mpr ⟨hquiet, ih hopening ?_⟩
      rintro ⟨cmd, hcmd⟩
      exact h ⟨cmd, List.mem_cons_of_mem _ hcmd⟩
    · exact absurd ⟨cmd, hcmd ▸ List.mem_cons_self⟩ h
    · rw [opening_cons_of_rejected he] at hopening
      cases hopening

/-- A blank line at the end changes nothing where no block is open. -/
theorem opening_append_blank (h : (r.after lines).pending = none) :
    opening m r n (lines ++ [[]]) = opening m r n lines := by
  induction lines generalizing m r n with
  | nil =>
    cases LineReader.eq_empty_of_pending h
    rfl
  | cons line lines ih =>
    rw [List.cons_append]
    rcases quiet_or (r.read line).1 with hquiet | ⟨cmd, hcmd⟩ | ⟨e, he⟩
    · rw [opening_cons_of_quiet hquiet, opening_cons_of_quiet hquiet, ih h]
    · rw [opening_cons_of_command hcmd, opening_cons_of_command hcmd]
    · rw [opening_cons_of_rejected he, opening_cons_of_rejected he]

end Opening

theorem contents_append_blank {lines : List (List Char)}
    (h : (LineReader.after {} lines).pending = none) :
    contents c options (lines ++ [[]]) = contents c options lines := by
  have hend : LineReader.after {} lines = {} := LineReader.eq_empty_of_pending h
  have hitems : itemsFrom c options {} 0 (lines ++ [[]]) = itemsFrom c options {} 0 lines := by
    have hblank : itemsFrom c options {} (0 + lines.length) [[]] = [] := rfl
    rw [itemsFrom_append, hend, hblank, itemsFrom, hend]
    rfl
  rw [contents, contents, hitems, opening_append_blank h]

end TextReader

end WireSchema
