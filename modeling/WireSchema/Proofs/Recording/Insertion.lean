import Mathlib
import WireSchema.Proofs.Recording.Lines
import WireSchema.Proofs.Wire.Acceptance

/-!
# Text recordings with one more line

A line that is rejected outside of a block leaves the line reader as it was, so that a recording
with this line gives the items that it gives without it, and the error of the line. The line must
stand behind the first command: in front of it, the error is met while the recording is opened, and
the recording is not opened at all.

* `RecordingError.oneLineLater` — what the line in front does to the errors behind it;
* `TextReader.contents_insert` — the contents of lines with the rejected line among them;
* `TextReader.items_insert_rejected` — the same for a text recording.
-/

namespace WireSchema

open WireSchema.Text

/-- An error of a line, with one more line in front of it. -/
def RecordingError.oneLineLater : RecordingError → RecordingError
  | line number e => line (number + 1) e
  | e => e

namespace TextReader

variable {c : Catalogue} {options : CommandOptions} {m : Metadata} {r : TextReader}
  {items : List (Except RecordingError Message)} {before after : List (List Char)}
  {line : List Char} {e : LineFault}

/-! ### Line numbers -/

theorem lineItem?_succ (n : ℕ) (o : Except LineFault LineResult) :
    lineItem? c options (n + 1) o
      = (lineItem? c options n o).map (Except.mapError RecordingError.oneLineLater) := by
  rcases o with e | result
  · rfl
  · cases result with
    | command cmd =>
      rw [lineItem?, lineItem?, commandItem, commandItem]
      cases c.ofCommand options cmd with
      | ok msg => rfl
      | error e => cases e <;> rfl
    | _ => rfl

theorem endItem?_succ (reader : LineReader) (n : ℕ) :
    endItem? reader (n + 1)
      = (endItem? reader n).map (Except.mapError RecordingError.oneLineLater) := by
  rw [endItem?, endItem?]
  cases reader.finish.1 <;> rfl

/-- One more line in front shifts the lines of the errors. -/
theorem itemsFrom_succ (reader : LineReader) (n : ℕ) (lines : List (List Char)) :
    itemsFrom c options reader (n + 1) lines
      = (itemsFrom c options reader n lines).map (Except.mapError RecordingError.oneLineLater) := by
  induction lines generalizing reader n with
  | nil => rw [itemsFrom_nil, itemsFrom_nil, endItem?_succ, Option.toList_map]
  | cons line lines ih =>
    rw [itemsFrom_cons, itemsFrom_cons, lineItem?_succ, ih, List.map_append, Option.toList_map]

/-! ### Lines with the rejected line among them -/

/-- A rejected line behind a command adds its error to the items; without a command in front of it
the lines have no contents but this error. -/
theorem contents_insert (hrejected : (LineReader.read {} line).1 = .error e)
    (houtside : (LineReader.after {} before).pending = none)
    (hcontents : contents c options (before ++ after) = .ok (m, items)) :
    let fault := RecordingError.line (before.length + 1) (.malformed e)
    ((∃ cmd, .ok (.command cmd) ∈ LineReader.outcomes {} before) →
      ∃ late, items = lineItems c options {} 0 before ++ late ∧
        contents c options (before ++ line :: after)
          = .ok (m, lineItems c options {} 0 before
              ++ .error fault :: late.map (Except.mapError RecordingError.oneLineLater))) ∧
    ((¬∃ cmd, .ok (.command cmd) ∈ LineReader.outcomes {} before) →
      contents c options (before ++ line :: after) = .error fault) := by
  intro fault
  have hend : LineReader.after {} before = {} := LineReader.eq_empty_of_pending houtside
  have hread : LineReader.read {} line = (.error e, {}) := LineReader.read_rejected hrejected
  obtain ⟨m', hopening, hm⟩ := map_eq_ok.mp hcontents
  cases hm
  constructor
  · intro hcommand
    refine ⟨itemsFrom c options {} before.length after, ?_, ?_⟩
    · rw [itemsFrom_append, hend, Nat.zero_add]
    · have hopened : opening .empty {} 0 (before ++ line :: after) = .ok m := by
        rw [opening_append_of_command hcommand] at hopening ⊢
        exact hopening
      rw [contents, hopened, itemsFrom_append, hend, itemsFrom_cons, hread, Nat.zero_add,
        itemsFrom_succ]
      rfl
  · intro hnone
    have hquiet := quiet_of_opening hopening hnone
    rw [contents, opening_append_of_quiet hquiet, hend, opening_cons_of_rejected hrejected,
      Nat.zero_add]
    rfl

/-! ### Texts with the rejected line among their lines -/

/-- Where no block is open, a blank line at the end of a text does not matter. -/
theorem contents_properLines_append (houtside : (LineReader.after {} before).pending = none) :
    contents c options (properLines (before ++ after))
      = contents c options (before ++ properLines after) := by
  by_cases hafter : after = []
  · subst hafter
    rw [List.append_nil, properLines, List.append_nil]
    rcases properLines_eq_or before with hproper | hproper
    · rw [hproper]
    · rw [hproper, LineReader.after_append, LineReader.after_cons, LineReader.after_nil,
        @LineReader.read_idle [] _ rfl] at houtside
      conv_rhs => rw [hproper, contents_append_blank houtside]
  · rw [properLines_append before hafter]

/-- A text recording that can be opened is given a line that is rejected outside of a block, at a
place that is not in a block. Behind the first command, it costs only itself: the recording is
opened with the same metadata and gives the same items, with the error of the line among them. In
front of the first command, it costs the recording. -/
theorem items_insert_rejected (hlines : ∀ a ∈ before ++ line :: after, '\n' ∉ a)
    (hrejected : (LineReader.read {} line).1 = .error e)
    (houtside : (LineReader.after {} before).pending = none)
    (hopen : ofBytes (Utf8.encode (List.intercalate ['\n'] (before ++ after))) = .ok (m, r))
    (hitems : Yields (next c options) r items) :
    let s := Utf8.encode (List.intercalate ['\n'] (before ++ line :: after))
    let fault := RecordingError.line (before.length + 1) (.malformed e)
    ((∃ cmd, .ok (.command cmd) ∈ LineReader.outcomes {} before) →
      ∃ r' late, items = lineItems c options {} 0 before ++ late ∧ ofBytes s = .ok (m, r') ∧
        Yields (next c options) r' (lineItems c options {} 0 before
          ++ .error fault :: late.map (Except.mapError RecordingError.oneLineLater))) ∧
    ((¬∃ cmd, .ok (.command cmd) ∈ LineReader.outcomes {} before) → ofBytes s = .error fault) := by
  intro s fault
  have hne : line ≠ [] := by
    rintro rfl
    cases hrejected
  have hwithout : ∀ a ∈ before ++ after, '\n' ∉ a := by
    simp only [List.mem_append, List.mem_cons] at hlines ⊢
    exact fun a ha => hlines a (ha.imp_right Or.inr)
  have hcontents : contents c options (before ++ properLines after) = .ok (m, items) := by
    have hgives := @gives_properLines c options _ hwithout
    rw [contents_properLines_append houtside] at hgives
    cases hresult : contents c options (before ++ properLines after) with
    | error e =>
      rw [hresult] at hgives
      cases hopen.symm.trans hgives
    | ok result =>
      rw [hresult] at hgives
      obtain ⟨r', hopen', hitems'⟩ := hgives
      cases hopen.symm.trans hopen'
      rw [hitems.unique hitems']
  have hgives : Gives c options s (contents c options (before ++ line :: properLines after)) := by
    have hproper : properLines (before ++ line :: after) = before ++ line :: properLines after := by
      rw [properLines_append before (List.cons_ne_nil _ _), properLines_cons (Or.inl hne)]
    rw [← hproper]
    exact gives_properLines hlines
  obtain ⟨hbehind, hinFront⟩ := contents_insert hrejected houtside hcontents
  constructor
  · intro hcommand
    obtain ⟨late, hsplit, hinserted⟩ := hbehind hcommand
    rw [hinserted] at hgives
    obtain ⟨r', hopen', hitems'⟩ := hgives
    exact ⟨r', late, hsplit, hopen', hitems'⟩
  · intro hnone
    rw [hinFront hnone] at hgives
    exact hgives

/-- The lines of a recording up to its first message. -/
def firstLines : List (List Char) :=
  ["!v=1".toList, "5 label b=hi".toList]

/-- The last lines of a recording: one that is no command, and the end of the text. -/
def lastLines : List (List Char) :=
  ["y".toList, []]

theorem items_insert_rejected_label :
    ∃ r, ofBytes (Utf8.encode "!v=1\n5 label b=hi\nx\ny\n".toList)
        = .ok (.ofPairs [("v", "1")], r) ∧
      Yields (next Catalogue.labelCatalogue {}) r
        [.ok ⟨5, 1, [.bytes [], .text "hi"]⟩,
          .error (.line 3 (.malformed (.expectedCommand "x"))),
          .error (.line 4 (.malformed (.expectedCommand "y")))] := by
  have hwithout : ∀ a ∈ firstLines ++ lastLines, '\n' ∉ a := by decide
  have hgives := @gives_properLines Catalogue.labelCatalogue {} _ hwithout
  have hcontents : contents Catalogue.labelCatalogue {} (properLines (firstLines ++ lastLines))
      = .ok (.ofPairs [("v", "1")], [.ok ⟨5, 1, [.bytes [], .text "hi"]⟩,
          .error (.line 3 (.malformed (.expectedCommand "y")))]) := by cbv
  rw [hcontents] at hgives
  obtain ⟨r, hopen, hitems⟩ := hgives
  have hlines : ∀ a ∈ firstLines ++ "x".toList :: lastLines, '\n' ∉ a := by decide
  have hrejected : (LineReader.read {} "x".toList).1 = .error (.expectedCommand "x") := by cbv
  have houtside : (LineReader.after {} firstLines).pending = none := by cbv
  have hcommand : .ok (.command ⟨5, "label", [("b", "hi")], []⟩)
      ∈ LineReader.outcomes {} firstLines := by
    have houtcomes : LineReader.outcomes {} firstLines
        = [.ok (.metadata "v" "1"), .ok (.command ⟨5, "label", [("b", "hi")], []⟩)] := by cbv
    rw [houtcomes]
    exact List.mem_cons_of_mem _ List.mem_cons_self
  have hearly : lineItems Catalogue.labelCatalogue {} {} 0 firstLines
      = [.ok ⟨5, 1, [.bytes [], .text "hi"]⟩] := by cbv
  obtain ⟨r', late, hsplit, hopen', hitems'⟩ :=
    (items_insert_rejected hlines hrejected houtside hopen hitems).1 ⟨_, hcommand⟩
  rw [hearly] at hsplit hitems'
  cases hsplit
  exact ⟨r', hopen', hitems'⟩

/-- A recording of one message is no longer opened with a line in front that is no command. -/
theorem rejected_in_front_not_opened :
    ¬∀ (version : String) (decls : List MessageDecl) (c : Catalogue) (options : CommandOptions)
      (before after : List (List Char)) (line : List Char) (e : LineFault) (m : Metadata)
      (r : TextReader) (items : List (Except RecordingError Message)),
      Catalogue.ofDecls version decls = .ok c → (∀ a ∈ before ++ line :: after, '\n' ∉ a) →
        (LineReader.read {} line).1 = .error e → (LineReader.after {} before).pending = none →
        ofBytes (Utf8.encode (List.intercalate ['\n'] (before ++ after))) = .ok (m, r) →
        Yields (next c options) r items →
        ∃ r' early late number fault, items = early ++ late ∧
          ofBytes (Utf8.encode (List.intercalate ['\n'] (before ++ line :: after)))
            = .ok (m, r') ∧
          Yields (next c options) r' (early ++ .error (.line number fault)
            :: late.map (Except.mapError RecordingError.oneLineLater)) := by
  intro h
  have hlines : ∀ a ∈ [] ++ "x".toList :: ["5 label b=hi".toList, []], '\n' ∉ a := by decide
  have hrejected : (LineReader.read {} "x".toList).1 = .error (.expectedCommand "x") := by cbv
  have hwithout : ∀ a ∈ ["5 label b=hi".toList, []], '\n' ∉ a := by decide
  have hgives := @gives_properLines Catalogue.labelCatalogue {} _ hwithout
  have hcontents : contents Catalogue.labelCatalogue {} (properLines ["5 label b=hi".toList, []])
      = .ok (.empty, [.ok ⟨5, 1, [.bytes [], .text "hi"]⟩]) := by cbv
  rw [hcontents] at hgives
  obtain ⟨r, hopen, hitems⟩ := hgives
  obtain ⟨r', early, late, number, fault, -, hopen', -⟩ := h "1" Catalogue.labelDecls
    Catalogue.labelCatalogue {} [] _ _ _ .empty r _ Catalogue.ofDecls_labelDecls hlines hrejected
    rfl hopen hitems
  have hinserted := @gives_properLines Catalogue.labelCatalogue {} _ hlines
  have hfails : contents Catalogue.labelCatalogue {}
      (properLines ([] ++ "x".toList :: ["5 label b=hi".toList, []]))
        = .error (.line 1 (.malformed (.expectedCommand "x"))) := by cbv
  rw [hfails] at hinserted
  cases hinserted.symm.trans hopen'

end TextReader

end WireSchema
