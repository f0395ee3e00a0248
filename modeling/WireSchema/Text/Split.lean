/-!
# Splitting characters at separators

Words, comma lists and lines are all cut out of a longer text at separator characters. The cut
itself is `splitAtSeparators`: the pieces between the separators, empty pieces included, so that
nothing but the separators is lost (`flatten_splitAtSeparators`).

* `cutAt` — the text before the first separator and the text after it;
* `splitAtSeparators` — every piece, in order;
* `lines` — the lines of a text, without their line ends.
-/

namespace WireSchema.Text

/-! ### One cut -/

/-- The loop of `cutAt`; `before` holds, reversed, what has been passed. -/
def cutAtFrom (sep : Char) (before : List Char) : List Char → Option (List Char × List Char)
  | [] => none
  | c :: rest =>
    if c = sep then some (before.reverse, rest) else cutAtFrom sep (c :: before) rest

/-- The text before the first `sep` and the text after it; nothing when there is no `sep`. -/
def cutAt (sep : Char) (s : List Char) : Option (List Char × List Char) :=
  cutAtFrom sep [] s

theorem cutAtFrom_eq_some {sep : Char} {s before a b : List Char}
    (h : cutAtFrom sep before s = some (a, b)) : before.reverse ++ s = a ++ sep :: b := by
  induction s generalizing before with
  | nil => simp [cutAtFrom] at h
  | cons c rest ih =>
    by_cases hc : c = sep
    · simp only [cutAtFrom, hc, if_true, Option.some.injEq, Prod.mk.injEq] at h
      rw [← h.1, ← h.2, hc]
    · simp only [cutAtFrom, hc, if_false] at h
      have := ih h
      simpa using this

/-- A cut loses the separator and nothing else. -/
theorem eq_of_cutAt {sep : Char} {s a b : List Char} (h : cutAt sep s = some (a, b)) :
    s = a ++ sep :: b := by
  simpa using cutAtFrom_eq_some h

/-! ### All cuts -/

/-- The loop of `splitAtSeparators`; `piece` and `done` hold, reversed, the current piece and the
pieces that are complete. -/
def splitFrom (isSep : Char → Bool) (piece : List Char) (done : List (List Char)) :
    List Char → List (List Char)
  | [] => (piece.reverse :: done).reverse
  | c :: rest =>
    if isSep c then splitFrom isSep [] (piece.reverse :: done) rest
    else splitFrom isSep (c :: piece) done rest

/-- The pieces between separators, in order. A text without a separator is one piece, and the
empty text is one empty piece. -/
def splitAtSeparators (isSep : Char → Bool) (s : List Char) : List (List Char) :=
  splitFrom isSep [] [] s

theorem flatten_splitFrom (isSep : Char → Bool) (s piece : List Char) (done : List (List Char)) :
    (splitFrom isSep piece done s).flatten
      = done.reverse.flatten ++ piece.reverse ++ s.filter (fun c => !isSep c) := by
  induction s generalizing piece done with
  | nil => simp [splitFrom]
  | cons c rest ih =>
    by_cases hc : isSep c <;> simp [splitFrom, hc, ih]

/-- The pieces hold exactly the characters that are no separators, in order. -/
theorem flatten_splitAtSeparators (isSep : Char → Bool) (s : List Char) :
    (splitAtSeparators isSep s).flatten = s.filter (fun c => !isSep c) := by
  simp [splitAtSeparators, flatten_splitFrom]

/-! ### Lines -/

/-- A line without the carriage return that a line feed may follow. -/
def dropCarriageReturn (line : List Char) : List Char :=
  if line.getLast? = some '\r' then line.dropLast else line

/-- The lines of a text. Each ends at a line feed, with or without a carriage return before it;
characters after the last line feed are one more line, and nothing is dropped from that one. -/
def lines (s : List Char) : List (List Char) :=
  let pieces := splitAtSeparators (· == '\n') s
  let ended := pieces.dropLast.map dropCarriageReturn
  match pieces.getLast? with
  | some [] | none => ended
  | some last => ended ++ [last]

end WireSchema.Text
