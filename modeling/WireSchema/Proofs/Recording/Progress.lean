import Mathlib
import WireSchema.Proofs.Recording.Text

/-!
# Text readers come to their end

A text recording may hold anything: lines that are no commands, blocks without an end, bytes that
are no text. Whatever it holds, each item of its reader uses up a line, a command that was read
ahead, or the end of the input, and the end is reported for good. So the items are finitely many, no
more than the lines and the end.

* `TextReader.size` — what a reader has still to read;
* `TextReader.readLine_step`, `TextReader.readCommand_step`, `TextReader.next_step` — one line, one
  command, one item;
* `TextReader.exists_yields` — the items of a reader;
* `TextReader.length_items_le_of_ofBytes` — the items of a recording.
-/

namespace WireSchema

/-! ### Lines of bytes -/

/-- Every line but the last one has its line feed. -/
theorem length_byteLinesFrom_le (line : Bytes) (done : List Bytes) (s : Bytes) :
    (byteLinesFrom line done s).length ≤ done.length + line.length + s.length := by
  induction s generalizing line done with
  | nil =>
    rw [byteLinesFrom, List.length_reverse]
    cases line with
    | nil => exact Nat.le_add_right _ _
    | cons b line =>
      show done.length + 1 ≤ _
      rw [List.length_cons]
      omega
  | cons b s ih =>
    rw [byteLinesFrom]
    split
    · have hle := ih [] ((b :: line).reverse :: done)
      rw [List.length_cons, List.length_nil] at hle
      rw [List.length_cons]
      omega
    · have hle := ih (b :: line) done
      rw [List.length_cons] at hle
      rw [List.length_cons]
      omega

namespace TextReader

variable {c : Catalogue} {options : CommandOptions} {r r' : TextReader}

/-! ### One item -/

/-- What a reader has still to read: its lines and the end of the input. -/
def pieces (r : TextReader) : ℕ :=
  r.lines.length + if r.done then 0 else 1

/-- What a reader has still to give: what it has to read, and a command that was read ahead. -/
def size (r : TextReader) : ℕ :=
  r.pieces + if r.pending.isSome then 1 else 0

/-- A reader that goes on as another keeps the command that was read ahead. It reports the end for
good, and has less to read after anything else. -/
structure GoesOn (r r' : TextReader) (ended : Prop) : Prop where
  pending : r'.pending = r.pending
  pieces_le : r'.pieces ≤ r.pieces
  done : ended → r'.done = true
  pieces_lt : ¬ended → r'.pieces < r.pieces

namespace GoesOn

variable {p q : Prop} {r'' : TextReader}

theorem of_lt (hpending : r'.pending = r.pending) (h : r'.pieces < r.pieces) (hp : ¬p) :
    r.GoesOn r' p :=
  ⟨hpending, Nat.le_of_lt h, fun hend => absurd hend hp, fun _ => h⟩

theorem congr (h : r.GoesOn r' p) (hpq : p ↔ q) : r.GoesOn r' q where
  pending := h.pending
  pieces_le := h.pieces_le
  done := fun hend => h.done (hpq.mpr hend)
  pieces_lt := fun hend => h.pieces_lt fun hp => hend (hpq.mp hp)

theorem trans (h : r.GoesOn r' p) (h' : r'.GoesOn r'' q) : r.GoesOn r'' q where
  pending := h'.pending.trans h.pending
  pieces_le := Nat.le_trans h'.pieces_le h.pieces_le
  done := h'.done
  pieces_lt := fun hend => Nat.lt_of_lt_of_le (h'.pieces_lt hend) h.pieces_le

end GoesOn

/-- Reading a line uses it up, or reports the end for good. -/
theorem readLine_step {stop : Stop} (h : r.readLine = (stop, r')) :
    r.GoesOn r' (stop = .atEnd) := by
  unfold readLine at h
  split at h
  · rename_i hdone
    cases h
    exact ⟨rfl, Nat.le_refl _, fun _ => hdone, fun hend => absurd rfl hend⟩
  rename_i hdone
  have hpieces : r.pieces = r.lines.length + 1 := by rw [pieces, if_neg hdone]
  split at h
  · have hlt : r.lines.length < r.pieces := by
      rw [hpieces]
      exact Nat.lt_succ_self _
    split at h <;> cases h
    · exact ⟨rfl, Nat.le_of_lt hlt, fun _ => rfl, fun _ => hlt⟩
    · exact .of_lt rfl hlt Stop.noConfusion
  · rename_i line rest hlines
    have hused : ∀ reader n, pieces { r with lines := rest, reader := reader, lineNumber := n }
        < r.pieces := by
      intro reader n
      rw [hpieces, hlines, pieces, if_neg hdone, List.length_cons]
      exact Nat.lt_succ_self _
    split at h
    · cases h
      exact .of_lt rfl (hused r.reader r.lineNumber) Stop.noConfusion
    · simp only at h
      split at h <;> cases h <;> exact .of_lt rfl (hused _ _) Stop.noConfusion

/-- Reading a command uses up a line at least, or reports the end for good. -/
theorem readCommand_step {m m' : Metadata} {result : Except RecordingError (Option Command)}
    (h : readCommand m r = (result, m', r')) : r.GoesOn r' (result = .ok none) := by
  induction hn : r.remaining using Nat.strong_induction_on generalizing m r with
  | h n ih =>
    rw [readCommand_eq] at h
    split at h <;> rename_i hline
    · cases h
      exact (readLine_step hline).congr (by simp)
    · cases h
      exact (readLine_step hline).congr (by simp)
    · cases h
      exact (readLine_step hline).congr (by simp)
    · have hlt := remaining_lt_of_found hline
      exact (readLine_step hline).trans (ih _ (hn ▸ hlt) h rfl)
    · have hlt := remaining_lt_of_found hline
      exact (readLine_step hline).trans (ih _ (hn ▸ hlt) h rfl)

/-- Reading a message uses up the command that was read ahead or a line, or reports the end for
good. -/
theorem read_step {result : Except RecordingError (Option Message)}
    (h : r.read c options = (result, r')) :
    r'.pending = none ∧ (result = .ok none → r'.done = true) ∧
      (result ≠ .ok none → r'.size < r.size) := by
  have hmessage : ∀ line cmd, messageOf c options line cmd ≠ .ok none := by
    intro line cmd
    unfold messageOf
    split <;> simp
  unfold read at h
  split at h
  · rename_i line cmd hpending
    cases h
    refine ⟨rfl, fun hend => absurd hend (hmessage line cmd), fun _ => ?_⟩
    rw [size, size, hpending]
    exact Nat.lt_succ_self r.pieces
  rename_i hpending
  have hsize : ∀ next ended, r.GoesOn next ended → ¬ended → next.size < r.size := by
    intro next ended hnext hend
    rw [size, size, hnext.pending, hpending]
    exact hnext.pieces_lt hend
  split at h <;> rename_i hcommand <;> cases h
  all_goals have hstep := readCommand_step hcommand
  · exact ⟨hstep.pending.trans hpending, by simp, fun _ => hsize _ _ hstep (by simp)⟩
  · exact ⟨hstep.pending.trans hpending, fun _ => hstep.done rfl, fun hend => absurd rfl hend⟩
  · refine ⟨hstep.pending.trans hpending, fun hend => absurd hend (hmessage _ _), fun _ => ?_⟩
    exact hsize _ _ hstep (by simp)

/-- What a call gives, and the reader that it leaves, once a command has been looked for. -/
def answer (c : Catalogue) (options : CommandOptions)
    (result : Except RecordingError (Option Command)) (r : TextReader) :
    Option (Except RecordingError Message) × TextReader :=
  match result with
  | .ok none => (none, r)
  | .ok (some cmd) =>
    match c.ofCommand options cmd with
    | .ok msg => (some (.ok msg), r)
    | .error e => (some (.error (.ofCommandOn r.lineNumber e)), r)
  | .error (.input fault) => (some (.error (.input fault)), { r with done := true })
  | .error e => (some (.error e), r)

theorem next_of_readCommand {m : Metadata} {result : Except RecordingError (Option Command)}
    (hpending : r.pending = none) (h : readCommand .empty r = (result, m, r')) :
    r.next c options = answer c options result r' := by
  unfold next read
  rw [hpending]
  simp only [h]
  rcases result with e | _ | cmd
  · cases e <;> rfl
  · rfl
  · unfold answer messageOf
    cases hof : c.ofCommand options cmd with
    | ok msg => simp only [hof]
    | error e =>
      simp only [hof]
      cases e <;> rfl

/-- Where the end has been seen and no command is read ahead, the end is reported. -/
theorem next_of_done (hdone : r.done = true) (hpending : r.pending = none) :
    r.next c options = (none, r) := by
  have hline : r.readLine = (.atEnd, r) := by rw [readLine, if_pos hdone]
  have hcommand : readCommand .empty r = (.ok none, .empty, r) := by rw [readCommand_eq, hline]
  exact next_of_readCommand hpending hcommand

/-- One call of a reader gives an item and leaves less to give, or reports the end for good. -/
theorem next_step (c : Catalogue) (options : CommandOptions) (r : TextReader) :
    (∃ r', r.next c options = (none, r') ∧ r'.next c options = (none, r')) ∨
      ∃ item r', r.next c options = (some item, r') ∧ r'.size < r.size := by
  cases hread : r.read c options with
  | mk result after =>
    obtain ⟨hpending, hdone, hlt⟩ := read_step hread
    unfold next
    rw [hread]
    split <;> rename_i hresult <;> cases hresult
    · exact Or.inl ⟨_, rfl, next_of_done (hdone rfl) hpending⟩
    · exact Or.inr ⟨_, _, rfl, hlt (by simp)⟩
    · rename_i fault
      have hle : size { after with done := true } ≤ after.size := by
        unfold size pieces
        simp
      exact Or.inr ⟨_, _, rfl, Nat.lt_of_le_of_lt hle (hlt (by simp))⟩
    · exact Or.inr ⟨_, _, rfl, hlt (by simp)⟩

/-! ### All items -/

/-- A reader comes to its end, after no more items than it has to give. -/
theorem exists_yields (c : Catalogue) (options : CommandOptions) (r : TextReader) :
    ∃ items, Yields (next c options) r items ∧ items.length ≤ r.size :=
  exists_yields_of_step (next_step c options) r

/-- A recording that is opened gives no more items than it has bytes, and one for the end. -/
theorem length_items_le_of_ofBytes {s : Bytes} {m : Metadata} (h : ofBytes s = .ok (m, r))
    {items : List (Except RecordingError Message)} (hitems : Yields (next c options) r items) :
    items.length ≤ s.length + 1 := by
  obtain ⟨items', hitems', hlength⟩ := r.exists_yields c options
  rw [hitems'.unique hitems] at hlength
  refine Nat.le_trans hlength ?_
  have hlines : (byteLines s).length ≤ s.length := by
    have hle := length_byteLinesFrom_le [] [] s
    rwa [List.length_nil, List.length_nil, Nat.zero_add] at hle
  have hopened : pieces { lines := byteLines s } = (byteLines s).length + 1 := rfl
  unfold ofBytes at h
  split at h <;> rename_i hcommand <;> cases h
  all_goals have hstep := readCommand_step hcommand
  · have hle := hstep.pieces_le
    rw [size, hstep.pending]
    show r.pieces ≤ _
    omega
  · rename_i cmd next
    have hlt := hstep.pieces_lt (by simp)
    show next.pieces + 1 ≤ _
    omega

end TextReader

end WireSchema
