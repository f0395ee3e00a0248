import Mathlib
import WireSchema.Text.Blank

/-!
# Cutting what was joined

Pieces without a separator, joined by separators, are cut apart into the same pieces. Words, comma
lists and lines are three cases of this.

* `splitAtSeparators_append` — one piece and what follows its separator;
* `words_append`, `words_intercalate` — words;
* `listEntries_intercalate`, `isEntry_of_mem_listEntries` — comma lists, and what is read from any;
* `lines_intercalate` — lines;
* `intercalate_splitAtSeparators` — the pieces of any text, joined again;
* `cutAt_append` — the text before the first separator.
-/

namespace WireSchema.Text

/-! ### One cut -/

theorem cutAtFrom_append {sep : Char} {a : List Char} (ha : sep ∉ a) (before b : List Char) :
    cutAtFrom sep before (a ++ sep :: b) = some (before.reverse ++ a, b) := by
  induction a generalizing before with
  | nil =>
    rw [List.nil_append, cutAtFrom, if_pos rfl, List.append_nil]
  | cons c a ih =>
    rw [List.mem_cons, not_or] at ha
    rw [List.cons_append, cutAtFrom, if_neg (Ne.symm ha.1), ih ha.2, List.reverse_cons,
      List.append_assoc, List.singleton_append]

/-- A text is cut at the first separator. -/
theorem cutAt_append {sep : Char} {a : List Char} (ha : sep ∉ a) (b : List Char) :
    cutAt sep (a ++ sep :: b) = some (a, b) :=
  cutAtFrom_append ha [] b

theorem not_mem_of_cutAtFrom {sep : Char} {before s a b : List Char}
    (h : cutAtFrom sep before s = some (a, b)) (hbefore : sep ∉ before) : sep ∉ a := by
  induction s generalizing before with
  | nil => cases h
  | cons c s ih =>
    rw [cutAtFrom] at h
    split at h
    · cases h
      rwa [List.mem_reverse]
    · rename_i hc
      exact ih h (List.not_mem_cons_of_ne_of_not_mem (Ne.symm hc) hbefore)

/-- The text before the first separator has none. -/
theorem not_mem_of_cutAt {sep : Char} {s a b : List Char} (h : cutAt sep s = some (a, b)) :
    sep ∉ a :=
  not_mem_of_cutAtFrom h List.not_mem_nil

/-! ### All cuts -/

section Split

variable {isSep : Char → Bool}

theorem splitFrom_done (piece : List Char) (done : List (List Char)) (s : List Char) :
    splitFrom isSep piece done s = done.reverse ++ splitFrom isSep piece [] s := by
  induction s generalizing piece done with
  | nil => rw [splitFrom, splitFrom, List.reverse_cons, List.reverse_singleton]
  | cons c s ih =>
    rw [splitFrom, splitFrom]
    split
    · rw [ih [] (piece.reverse :: done), ih [] [piece.reverse], List.reverse_cons,
        List.reverse_singleton, List.append_assoc]
    · exact ih (c :: piece) done

theorem splitFrom_append {a : List Char} (ha : ∀ c ∈ a, isSep c = false) (piece s : List Char) :
    splitFrom isSep piece [] (a ++ s) = splitFrom isSep (a.reverse ++ piece) [] s := by
  induction a generalizing piece with
  | nil => rfl
  | cons c a ih =>
    rw [List.forall_mem_cons] at ha
    rw [List.cons_append, splitFrom, ha.1, if_neg Bool.false_ne_true, ih ha.2, List.reverse_cons,
      List.append_assoc, List.singleton_append]

theorem splitAtSeparators_of_not_sep {a : List Char} (ha : ∀ c ∈ a, isSep c = false) :
    splitAtSeparators isSep a = [a] := by
  have h := splitFrom_append ha [] []
  rw [List.append_nil, List.append_nil] at h
  rw [splitAtSeparators, h, splitFrom, List.reverse_singleton, List.reverse_reverse]

/-- A piece is cut off at the separator behind it. -/
theorem splitAtSeparators_append {a : List Char} {sep : Char} (ha : ∀ c ∈ a, isSep c = false)
    (hsep : isSep sep = true) (s : List Char) :
    splitAtSeparators isSep (a ++ sep :: s) = a :: splitAtSeparators isSep s := by
  rw [splitAtSeparators, splitFrom_append ha, splitFrom, hsep, if_pos rfl, splitFrom_done,
    List.append_nil, List.reverse_reverse, List.reverse_singleton]
  rfl

/-- Pieces that separators join are cut apart again. -/
theorem splitAtSeparators_intercalate {sep : Char} (hsep : isSep sep = true)
    {pieces : List (List Char)} (hne : pieces ≠ [])
    (h : ∀ a ∈ pieces, ∀ c ∈ a, isSep c = false) :
    splitAtSeparators isSep (List.intercalate [sep] pieces) = pieces := by
  induction pieces with
  | nil => exact absurd rfl hne
  | cons a pieces ih =>
    rw [List.forall_mem_cons] at h
    cases pieces with
    | nil =>
      rw [List.intercalate_singleton]
      exact splitAtSeparators_of_not_sep h.1
    | cons b pieces =>
      have htail := ih (List.cons_ne_nil b pieces) h.2
      rw [List.intercalate_cons_cons, List.append_assoc, List.singleton_append,
        splitAtSeparators_append h.1 hsep, htail]

theorem splitFrom_ne_nil (piece s : List Char) : splitFrom isSep piece [] s ≠ [] := by
  induction s generalizing piece with
  | nil => exact List.cons_ne_nil _ _
  | cons c s ih =>
    rw [splitFrom]
    split
    · rw [splitFrom_done]
      exact List.append_ne_nil_of_left_ne_nil (List.cons_ne_nil _ _) _
    · exact ih _

/-- The piece that a cut has begun is the start of the first one. -/
theorem exists_splitFrom_eq_cons (piece s : List Char) :
    ∃ tail pieces, splitFrom isSep piece [] s = (piece.reverse ++ tail) :: pieces := by
  induction s generalizing piece with
  | nil => exact ⟨[], [], by rw [splitFrom, List.append_nil, List.reverse_singleton]⟩
  | cons c s ih =>
    rw [splitFrom]
    split
    · refine ⟨[], splitFrom isSep [] [] s, ?_⟩
      rw [splitFrom_done, List.append_nil, List.reverse_singleton, List.singleton_append]
    · obtain ⟨tail, pieces, heq⟩ := ih (c :: piece)
      refine ⟨c :: tail, pieces, ?_⟩
      rw [heq, List.reverse_cons, List.append_assoc, List.singleton_append]

theorem intercalate_splitFrom (sep : Char) (piece s : List Char) :
    List.intercalate [sep] (splitFrom (· == sep) piece [] s) = piece.reverse ++ s := by
  induction s generalizing piece with
  | nil =>
    rw [splitFrom, List.reverse_singleton, List.intercalate_singleton, List.append_nil]
  | cons c s ih =>
    rw [splitFrom]
    split
    · rename_i hc
      obtain ⟨next, pieces, hnext⟩ :=
        List.exists_cons_of_ne_nil (@splitFrom_ne_nil (· == sep) [] s)
      have hrest := ih []
      rw [hnext, List.reverse_nil, List.nil_append] at hrest
      rw [splitFrom_done, List.reverse_singleton, List.singleton_append, hnext,
        List.intercalate_cons_cons, hrest, List.append_assoc, List.singleton_append,
        beq_iff_eq.mp hc]
    · rw [ih, List.reverse_cons, List.append_assoc, List.singleton_append]

/-- Joining the pieces between the separators gives the text back. -/
theorem intercalate_splitAtSeparators (sep : Char) (s : List Char) :
    List.intercalate [sep] (splitAtSeparators (· == sep) s) = s :=
  intercalate_splitFrom sep [] s

end Split

/-! ### Blanks -/

theorem dropWhile_isBlank {s : List Char} (h : ∀ c, s.head? = some c → isBlank c = false) :
    s.dropWhile isBlank = s := by
  cases s with
  | nil => rfl
  | cons c s =>
    refine List.dropWhile_cons_of_neg ?_
    rw [h c rfl]
    exact Bool.false_ne_true

/-- A text without a blank at either end is left alone. -/
theorem trim_eq_self {s : List Char} (hhead : ∀ c, s.head? = some c → isBlank c = false)
    (hlast : ∀ c, s.getLast? = some c → isBlank c = false) : trim s = s := by
  rw [trim, trimStart, dropWhile_isBlank hhead, trimEnd, dropWhile_isBlank, List.reverse_reverse]
  intro c hc
  rw [List.head?_reverse] at hc
  exact hlast c hc

theorem trim_of_not_blank {s : List Char} (h : ∀ c ∈ s, isBlank c = false) : trim s = s :=
  trim_eq_self (fun c hc => h c (List.mem_of_head? hc)) (fun c hc => h c (List.mem_of_getLast? hc))

theorem trim_cons_blank {b : Char} (hb : isBlank b = true) (s : List Char) :
    trim (b :: s) = trim s := by
  rw [trim, trim, trimStart, trimStart, List.dropWhile_cons_of_pos hb]

theorem trim_append_blank {b : Char} (hb : isBlank b = true) (s : List Char) :
    trim (s ++ [b]) = trim s := by
  have hlast : [b].dropWhile isBlank = [] := by
    rw [List.dropWhile_cons_of_pos hb, List.dropWhile_nil]
  rw [trim, trim, trimStart, trimStart, List.dropWhile_append]
  by_cases hempty : (s.dropWhile isBlank).isEmpty = true
  · rw [if_pos hempty, hlast, List.isEmpty_iff.mp hempty]
  · rw [if_neg hempty, trimEnd, List.reverse_append, List.reverse_singleton, List.singleton_append,
      List.dropWhile_cons_of_pos hb]
    rfl

/-- The carriage return at the end of a line is a blank. -/
theorem trim_dropCarriageReturn (line : List Char) :
    trim (dropCarriageReturn line) = trim line := by
  unfold dropCarriageReturn
  split
  · rename_i hlast
    conv_rhs => rw [← List.dropLast_append_getLast? _ hlast]
    rw [trim_append_blank (by decide)]
  · rfl

/-- Trimming only drops characters. -/
theorem subset_trim (s : List Char) : trim s ⊆ s :=
  fun _ h => (List.dropWhile_suffix isBlank).subset ((List.rdropWhile_prefix isBlank _).subset h)

/-- What is trimmed does not start with a blank. -/
theorem not_isBlank_head_trim {s : List Char} {c : Char} (hc : (trim s).head? = some c) :
    isBlank c = false := by
  have hprefix : trim s <+: trimStart s := List.rdropWhile_prefix isBlank _
  obtain ⟨tail, htail⟩ := hprefix
  have hhead : (trimStart s).head? = some c := by
    rw [← htail, List.head?_append, hc, Option.some_or]
  have hnot := List.head?_dropWhile_not isBlank s
  rw [← trimStart, hhead] at hnot
  simpa using hnot

/-- What is trimmed has no blanks at its ends. -/
theorem trim_trim (s : List Char) : trim (trim s) = trim s := by
  refine trim_eq_self (fun c hc => not_isBlank_head_trim hc) (fun c hc => ?_)
  have hnot := List.head?_dropWhile_not isBlank (trimStart s).reverse
  rw [trim, trimEnd, List.getLast?_reverse] at hc
  rw [hc] at hnot
  simpa using hnot

/-! ### Words -/

/-- A word: it is not empty and has no blank. -/
def IsWord (w : List Char) : Prop :=
  w ≠ [] ∧ ∀ c ∈ w, isBlank c = false

/-- A word is cut off at the blank behind it. -/
theorem words_append {w : List Char} (hw : IsWord w) {b : Char} (hb : isBlank b = true)
    (s : List Char) : words (w ++ b :: s) = w :: words s := by
  rw [words, splitAtSeparators_append hw.2 hb, List.filter_cons_of_pos]
  · rfl
  · rw [Bool.not_eq_true', List.isEmpty_eq_false_iff]
    exact hw.1

theorem words_of_isWord {w : List Char} (hw : IsWord w) : words w = [w] := by
  rw [words, splitAtSeparators_of_not_sep hw.2, List.filter_cons_of_pos, List.filter_nil]
  rw [Bool.not_eq_true', List.isEmpty_eq_false_iff]
  exact hw.1

/-- Words that blanks join are cut apart again. -/
theorem words_intercalate {b : Char} (hb : isBlank b = true) {ws : List (List Char)}
    (h : ∀ w ∈ ws, IsWord w) : words (List.intercalate [b] ws) = ws := by
  induction ws with
  | nil => rfl
  | cons w ws ih =>
    rw [List.forall_mem_cons] at h
    cases ws with
    | nil =>
      rw [List.intercalate_singleton]
      exact words_of_isWord h.1
    | cons v ws =>
      rw [List.intercalate_cons_cons, List.append_assoc, List.singleton_append,
        words_append h.1 hb, ih h.2]

/-- What is true of the characters of pieces and of the separator is true of those of the whole. -/
theorem forall_mem_intercalate {P : Char → Prop} {sep : Char} (hsep : P sep)
    {pieces : List (List Char)} (h : ∀ a ∈ pieces, ∀ c ∈ a, P c) :
    ∀ c ∈ List.intercalate [sep] pieces, P c := by
  induction pieces with
  | nil => exact fun c hc => absurd hc List.not_mem_nil
  | cons a pieces ih =>
    rw [List.forall_mem_cons] at h
    cases pieces with
    | nil =>
      rw [List.intercalate_singleton]
      exact h.1
    | cons b pieces =>
      rw [List.intercalate_cons_cons]
      intro c hc
      rcases List.mem_append.mp hc with hc | hc
      · rcases List.mem_append.mp hc with hc | hc
        · exact h.1 c hc
        · rw [List.mem_singleton.mp hc]
          exact hsep
      · exact ih h.2 c hc

/-- Pieces that separators join, written as the first one and what is added to it. -/
theorem intercalate_cons {α : Type} (sep : α) (a : List α) (pieces : List (List α)) :
    List.intercalate [sep] (a :: pieces) = a ++ pieces.flatMap fun b => sep :: b := by
  induction pieces generalizing a with
  | nil => rw [List.intercalate_singleton, List.flatMap_nil, List.append_nil]
  | cons b pieces ih =>
    rw [List.intercalate_cons_cons, ih, List.flatMap_cons, List.append_assoc,
      List.singleton_append, List.cons_append]

/-- The first and the last word decide about the ends of words that blanks join. -/
theorem trim_intercalate {b : Char} {ws : List (List Char)} (h : ∀ w ∈ ws, IsWord w) :
    trim (List.intercalate [b] ws) = List.intercalate [b] ws := by
  refine trim_eq_self ?_ ?_
  · cases ws with
    | nil => exact fun c hc => nomatch hc
    | cons w ws =>
      obtain ⟨a, tail, rfl⟩ := List.exists_cons_of_ne_nil (h w List.mem_cons_self).1
      rw [intercalate_cons]
      intro c hc
      cases hc
      exact (h _ List.mem_cons_self).2 _ List.mem_cons_self
  · induction ws with
    | nil => exact fun c hc => nomatch hc
    | cons w ws ih =>
      rw [List.forall_mem_cons] at h
      cases ws with
      | nil =>
        rw [List.intercalate_singleton]
        exact fun c hc => h.1.2 c (List.mem_of_getLast? hc)
      | cons v ws =>
        have hne : List.intercalate [b] (v :: ws) ≠ [] := by
          rw [intercalate_cons]
          exact List.append_ne_nil_of_left_ne_nil (h.2 v List.mem_cons_self).1 _
        rw [List.intercalate_cons_cons, List.getLast?_append_of_ne_nil _ hne]
        exact ih h.2

/-- The pieces that a text is cut into have no separator. -/
theorem not_sep_of_mem_split {isSep : Char → Bool} {s a : List Char}
    (ha : a ∈ splitAtSeparators isSep s) : ∀ c ∈ a, isSep c = false := by
  intro c hc
  have hmem : c ∈ (splitAtSeparators isSep s).flatten := List.mem_flatten.mpr ⟨a, ha, hc⟩
  rw [flatten_splitAtSeparators, List.mem_filter, Bool.not_eq_true'] at hmem
  exact hmem.2

/-- What a text is cut into at blanks are words. -/
theorem isWord_of_mem_words {s w : List Char} (h : w ∈ words s) : IsWord w := by
  rw [words, List.mem_filter, Bool.not_eq_true', List.isEmpty_eq_false_iff] at h
  exact ⟨h.2, not_sep_of_mem_split h.1⟩

/-- A text with a character that is no blank has a word. -/
theorem words_ne_nil {s : List Char} {c : Char} (hc : c ∈ s) (hblank : isBlank c = false) :
    words s ≠ [] := by
  have hmem : c ∈ (splitAtSeparators isBlank s).flatten := by
    rw [flatten_splitAtSeparators, List.mem_filter, hblank]
    exact ⟨hc, rfl⟩
  obtain ⟨w, hw, hcw⟩ := List.mem_flatten.mp hmem
  have hword : w ∈ words s := by
    rw [words, List.mem_filter, Bool.not_eq_true', List.isEmpty_eq_false_iff]
    exact ⟨hw, List.ne_nil_of_mem hcw⟩
  exact List.ne_nil_of_mem hword

/-- A text that starts with no blank starts with its first word. -/
theorem exists_words_eq_cons {c : Char} (hc : isBlank c = false) (s : List Char) :
    ∃ tail ws, words (c :: s) = (c :: tail) :: ws := by
  obtain ⟨tail, pieces, heq⟩ := @exists_splitFrom_eq_cons isBlank [c] s
  refine ⟨tail, pieces.filter fun w => !w.isEmpty, ?_⟩
  rw [words, splitAtSeparators, splitFrom, hc, if_neg Bool.false_ne_true, heq,
    List.filter_cons_of_pos]
  · rfl
  · rfl

/-! ### Comma lists -/

/-- An entry that a comma list gives back: it is not empty, has no comma and is trimmed. -/
def IsEntry (s : List Char) : Prop :=
  s ≠ [] ∧ ',' ∉ s ∧ trim s = s

/-- The entries that commas join are read as the same entries. -/
theorem listEntries_intercalate {items : List (List Char)} (h : ∀ s ∈ items, IsEntry s) :
    listEntries (List.intercalate [','] items) = items := by
  cases hitems : items with
  | nil => rfl
  | cons item rest =>
    rw [← hitems]
    have hsplit : splitAtSeparators (· == ',') (List.intercalate [','] items) = items := by
      refine @splitAtSeparators_intercalate (· == ',') ',' rfl items ?_ ?_
      · rw [hitems]
        exact List.cons_ne_nil _ _
      · intro s hs c hc
        rw [beq_eq_false_iff_ne]
        rintro rfl
        exact (h s hs).2.1 hc
    have htrim : items.map trim = items := by
      rw [List.map_congr_left fun s hs => (h s hs).2.2, List.map_id']
    rw [listEntries, hsplit, htrim, List.filter_eq_self]
    intro s hs
    rw [Bool.not_eq_true', List.isEmpty_eq_false_iff]
    exact (h s hs).1

/-- What is read from a comma list are such entries. -/
theorem isEntry_of_mem_listEntries {s entry : List Char} (h : entry ∈ listEntries s) :
    IsEntry entry := by
  rw [listEntries, List.mem_filter, Bool.not_eq_true', List.isEmpty_eq_false_iff] at h
  obtain ⟨hmem, hne⟩ := h
  obtain ⟨piece, hpiece, rfl⟩ := List.mem_map.mp hmem
  refine ⟨hne, fun hcomma => ?_, trim_trim piece⟩
  have hsep := not_sep_of_mem_split hpiece ',' (subset_trim piece hcomma)
  exact absurd hsep (by decide)

/-! ### Lines -/

/-- Lines that line feeds join are cut apart again, if none ends in a carriage return and the last
one is not empty. -/
theorem lines_intercalate {init : List (List Char)} {last : List Char}
    (hinit : ∀ line ∈ init, '\n' ∉ line ∧ line.getLast? ≠ some '\r') (hlast : '\n' ∉ last)
    (hne : last ≠ []) : lines (List.intercalate ['\n'] (init ++ [last])) = init ++ [last] := by
  have hsplit : splitAtSeparators (· == '\n') (List.intercalate ['\n'] (init ++ [last]))
      = init ++ [last] := by
    refine @splitAtSeparators_intercalate (· == '\n') '\n' rfl (init ++ [last]) ?_ ?_
    · exact List.append_ne_nil_of_right_ne_nil _ (List.cons_ne_nil _ _)
    · intro line hline c hc
      rw [beq_eq_false_iff_ne]
      rintro rfl
      rcases List.mem_append.mp hline with hline | hline
      · exact (hinit line hline).1 hc
      · rw [List.mem_singleton.mp hline] at hc
        exact hlast hc
  have hended : init.map dropCarriageReturn = init := by
    have hline : ∀ line ∈ init, dropCarriageReturn line = line :=
      fun line hline => if_neg (hinit line hline).2
    rw [List.map_congr_left hline, List.map_id']
  obtain ⟨c, tail, rfl⟩ := List.exists_cons_of_ne_nil hne
  simp only [lines, hsplit, List.getLast?_append, List.getLast?_singleton, Option.some_or,
    List.dropLast_concat, hended]

end WireSchema.Text
