import Mathlib

/-!
# The items of a reader

A reader is called for one item after the other, and each call leaves the reader for the next one.
The items end at the first call that gives none, if the calls after it give none either.

* `Yields` — the items of a reader, up to its end;
* `Yields.unique` — a reader has no other items than these;
* `exists_yields_of_step` — a reader that has less to read after every item comes to its end;
* `results`, `errorCount` — the items that are results, and the number of those that are errors.
-/

namespace WireSchema

variable {ρ α : Type} {next : ρ → Option α × ρ} {r : ρ} {items items' : List α}

/-- The items that the calls of a reader give, one after the other, up to the end; the call after
that reports the end again and leaves the reader as it is. -/
inductive Yields (next : ρ → Option α × ρ) : ρ → List α → Prop
  | atEnd {r r' : ρ} (h : next r = (none, r')) (hagain : next r' = (none, r')) : Yields next r []
  | item {r r' : ρ} {a : α} {items : List α} (h : next r = (some a, r'))
      (hrest : Yields next r' items) : Yields next r (a :: items)

/-- The calls of a reader settle its items. -/
theorem Yields.unique (h : Yields next r items) (h' : Yields next r items') : items = items' := by
  induction h generalizing items' with
  | atEnd hnext _ =>
    cases h' with
    | atEnd _ _ => rfl
    | item hnext' _ =>
      rw [hnext] at hnext'
      cases hnext'
  | item hnext _ ih =>
    cases h' with
    | atEnd hnext' _ =>
      rw [hnext] at hnext'
      cases hnext'
    | item hnext' hrest' =>
      rw [hnext] at hnext'
      cases hnext'
      rw [ih hrest']

/-- A reader whose next call is that of another one has the same items. -/
theorem Yields.congr {r' : ρ} (hnext : next r = next r') (h : Yields next r' items) :
    Yields next r items := by
  cases h with
  | atEnd hend hagain => exact .atEnd (hnext.trans hend) hagain
  | item hitem hrest => exact .item (hnext.trans hitem) hrest

/-- What every call says of the item that it gives holds of all items. -/
theorem Yields.forall_mem {P : α → Prop} (step : ∀ r a r', next r = (some a, r') → P a)
    (h : Yields next r items) : ∀ a ∈ items, P a := by
  induction h with
  | atEnd _ _ => exact fun a ha => absurd ha List.not_mem_nil
  | item hnext _ ih => exact List.forall_mem_cons.mpr ⟨step _ _ _ hnext, ih⟩

/-- Where every call either reports the end for good or leaves less to read, the end is reached,
after no more items than there was to read. -/
theorem exists_yields_of_step {size : ρ → ℕ}
    (step : ∀ r, (∃ r', next r = (none, r') ∧ next r' = (none, r')) ∨
      ∃ a r', next r = (some a, r') ∧ size r' < size r) (r : ρ) :
    ∃ items, Yields next r items ∧ items.length ≤ size r := by
  induction hn : size r using Nat.strong_induction_on generalizing r with
  | h n ih =>
    rcases step r with ⟨r', hnext, hagain⟩ | ⟨a, r', hnext, hlt⟩
    · exact ⟨[], .atEnd hnext hagain, Nat.zero_le _⟩
    · obtain ⟨items, hitems, hlength⟩ := ih (size r') (hn ▸ hlt) r' rfl
      refine ⟨a :: items, .item hnext hitems, ?_⟩
      rw [List.length_cons]
      omega

/-! ### Results and errors -/

variable {ε : Type}

/-- The results among items that may be errors, in order. -/
def results (items : List (Except ε α)) : List α :=
  items.filterMap Except.toOption

/-- The number of items that are errors. -/
def errorCount (items : List (Except ε α)) : ℕ :=
  items.countP fun item => !item.isOk

@[simp]
theorem results_cons_ok (a : α) (items : List (Except ε α)) :
    results (.ok a :: items) = a :: results items :=
  rfl

@[simp]
theorem results_cons_error (e : ε) (items : List (Except ε α)) :
    results (.error e :: items) = results items :=
  rfl

@[simp]
theorem results_append (items more : List (Except ε α)) :
    results (items ++ more) = results items ++ results more :=
  List.filterMap_append

theorem results_map_ok (list : List α) : results (list.map (.ok : α → Except ε α)) = list := by
  induction list with
  | nil => rfl
  | cons a list ih => rw [List.map_cons, results_cons_ok, ih]

theorem mem_results {items : List (Except ε α)} {a : α} : a ∈ results items ↔ .ok a ∈ items := by
  rw [results, List.mem_filterMap]
  constructor
  · rintro ⟨item, hitem, ha⟩
    cases item with
    | ok b =>
      cases ha
      exact hitem
    | error e => cases ha
  · exact fun h => ⟨_, h, rfl⟩

@[simp]
theorem errorCount_cons_ok (a : α) (items : List (Except ε α)) :
    errorCount (.ok a :: items) = errorCount items :=
  List.countP_cons_of_neg Bool.false_ne_true

@[simp]
theorem errorCount_cons_error (e : ε) (items : List (Except ε α)) :
    errorCount (.error e :: items) = errorCount items + 1 :=
  List.countP_cons_of_pos rfl

@[simp]
theorem errorCount_append (items more : List (Except ε α)) :
    errorCount (items ++ more) = errorCount items + errorCount more :=
  List.countP_append

theorem errorCount_map_ok (list : List α) : errorCount (list.map (.ok : α → Except ε α)) = 0 := by
  induction list with
  | nil => rfl
  | cons a list ih => rw [List.map_cons, errorCount_cons_ok, ih]

end WireSchema
