import Mathlib
import WireSchema.Proofs.Schema.Layout

/-!
# The totals of fields

A layout is checked by the totals of its fields: records are accepted behind fields whose least and
greatest lengths have equal totals, and a sequence is given the room that the least lengths before
it leave. The total of the greatest lengths is cut off at the end of a payload, so that equal totals
do not tell everything about the fields, and numbers are not checked against the room at all.

* `forall_fixed_iff` — fields of fixed length are told by their totals;
* `exists_beyond` — only a number can stand where the least lengths leave no room for it;
* `Layout.fixed_before_records` — the fields before records have a fixed length, unless they fill a
  payload;
* `Layout.variable_before_records` — in a full payload they need not.
-/

namespace WireSchema

/-! ### Least and greatest lengths -/

theorem Field.WellFormed.min_le_max {f : Field} (h : f.WellFormed) : f.minLen ≤ f.maxLen := by
  cases hkind : f.kind with
  | scalar kind =>
    obtain ⟨-, hmin, hmax⟩ := h.scalar hkind
    exact (hmin.trans hmax.symm).le
  | sequence type count format => exact (h.sequence hkind).min_le_max
  | records recordName columns itemLen maxItems =>
    exact (h.records hkind).minLen_eq.trans_le (Nat.zero_le _)

theorem minTotal_le_maxTotal {fields : List Field} (h : ∀ f ∈ fields, f.WellFormed) :
    minTotal fields ≤ maxTotal fields :=
  List.sum_le_sum fun f hf => (h f hf).min_le_max

/-- All fields have a fixed length just if the totals of least and greatest lengths are equal. -/
theorem forall_fixed_iff {fields : List Field} (h : ∀ f ∈ fields, f.WellFormed) :
    (∀ f ∈ fields, f.minLen = f.maxLen) ↔ minTotal fields = maxTotal fields := by
  induction fields with
  | nil => simp
  | cons f fields ih =>
    rw [List.forall_mem_cons] at h ⊢
    have hfield := h.1.min_le_max
    have hothers := minTotal_le_maxTotal h.2
    rw [ih h.2, minTotal_cons, maxTotal_cons]
    omega

/-! ### The room that is left -/

/-- A field that is no number has room for its least length, if there is any room. -/
theorem Field.Placed.fits {f : Field} {isLast : Bool} {prevMin prevMax : ℕ}
    (h : f.Placed isLast prevMin prevMax) (hf : f.WellFormed) (hprev : prevMin ≤ maxPayload)
    (hkind : ∀ kind, f.kind ≠ .scalar kind) : prevMin + f.minLen ≤ maxPayload := by
  cases hcase : f.kind with
  | scalar kind => exact absurd hcase (hkind kind)
  | sequence type count format =>
    have hle := hf.min_le_max
    have hroom := (h.sequence hcase).2
    omega
  | records recordName columns itemLen maxItems =>
    have hleast := (hf.records hcase).minLen_eq
    omega

/-- Where the least lengths go beyond the end of a payload, a number is the first field to do so. -/
theorem exists_beyond {prevMin prevMax : ℕ} {fields : List Field}
    (hfields : ∀ f ∈ fields, f.WellFormed) (hplaced : PlacedFrom prevMin prevMax fields)
    (hprev : prevMin ≤ maxPayload) (hbeyond : maxPayload < prevMin + minTotal fields) :
    ∃ before f after kind, fields = before ++ f :: after ∧ f.kind = .scalar kind ∧
      maxPayload < prevMin + minTotal before + f.minLen := by
  induction fields generalizing prevMin prevMax with
  | nil => exact absurd hbeyond (Nat.not_lt.mpr hprev)
  | cons f fields ih =>
    rw [List.forall_mem_cons] at hfields
    by_cases hfits : prevMin + f.minLen ≤ maxPayload
    · rw [minTotal_cons, ← Nat.add_assoc] at hbeyond
      obtain ⟨before, g, after, kind, rfl, hkind, hg⟩ := ih hfields.2 hplaced.2 hfits hbeyond
      refine ⟨f :: before, g, after, kind, rfl, hkind, ?_⟩
      rwa [minTotal_cons, ← Nat.add_assoc]
    · have hnumber : ∃ kind, f.kind = .scalar kind := by
        by_contra hnone
        exact hfits (hplaced.1.fits hfields.1 hprev (not_exists.mp hnone))
      obtain ⟨kind, hkind⟩ := hnumber
      exact ⟨[], f, fields, kind, rfl, hkind, Nat.not_le.mp hfits⟩

/-! ### Fields before records -/

namespace Layout

/-- Fields before records have a fixed length, provided that their greatest lengths fit a payload
together. Where they do not fit, the least lengths fill the payload to its end: no record has room
behind them, and all payloads have the greatest length that there is. -/
theorem fixed_before_records {owner : String} {decls : List FieldDecl} {l : Layout}
    {before : List Field} {f : Field} (h : ofDecls owner decls = .ok l)
    (hfields : l.fields = before ++ [f]) (hrecords : f.isRecords = true) :
    ((∀ g ∈ before, g.minLen = g.maxLen) ↔ maxTotal before ≤ maxPayload) ∧
      (maxPayload < maxTotal before →
        minTotal before = maxPayload ∧ f.maxItems? = some 0 ∧
          l.minLen = maxPayload ∧ l.maxLen = maxPayload) := by
  have hl := wellFormed_of_ofDecls h
  have hwf := hl.fields
  have hplaced := (hfields ▸ hl.placed).placed (Nat.zero_le _)
  rw [hfields, List.forall_mem_append, List.forall_mem_singleton] at hwf
  rw [Nat.zero_add, Nat.zero_add] at hplaced
  obtain ⟨recordName, columns, itemLen, maxItems, hkind⟩ : ∃ recordName columns itemLen maxItems,
      f.kind = .records recordName columns itemLen maxItems := by
    unfold Field.isRecords at hrecords
    split at hrecords
    · exact ⟨_, _, _, _, ‹_›⟩
    · cases hrecords
  have hrecord := hwf.2.records hkind
  obtain ⟨-, htotals, hitems⟩ := hplaced.records hkind
  constructor
  · rw [forall_fixed_iff hwf.1]
    omega
  · intro hbeyond
    have hfull : minTotal before = maxPayload := by omega
    have hnone : maxItems = 0 := by rw [hitems, hfull, Nat.sub_self, Nat.zero_div]
    have hleast := hrecord.minLen_eq
    have hmost := hrecord.maxLen_eq
    rw [hnone, Nat.zero_mul] at hmost
    refine ⟨hfull, by simp only [Field.maxItems?, hkind, hnone], ?_, ?_⟩
    · rw [hl.minLen_eq, hfields, minTotal_append, hfull, minTotal_cons, hleast]
      rfl
    · rw [hl.maxLen_eq, hfields, maxTotal_append, maxTotal_cons, hmost]
      omega

/-- Records behind a sequence that may have up to 255 bytes and one that has 65532. -/
def filledDecls : List FieldDecl :=
  [.short "a bytes",
    .long "b bytes" none { minLen := some 65532, countType := some "u16" },
    .long "r struct" none { recordName := some "R", fields := some [.short "x u8"] }]

/-- The layout of `filledDecls`. -/
def filledLayout : Layout :=
  ⟨[⟨"a", 1, 256, .sequence .bytes (some .u8) .plain⟩,
    ⟨"b", 65534, 65534, .sequence .bytes (some .u16) .plain⟩,
    ⟨"r", 0, 0, .records "R" [⟨"x", .integer .u8 .plain⟩] 1 0⟩], 65535, 65535⟩

theorem ofDecls_filledDecls : ofDecls "Filled" filledDecls = .ok filledLayout := by
  cbv

theorem fixed_before_records_filled :
    minTotal (filledLayout.fields.take 2) = maxPayload ∧ filledLayout.minLen = maxPayload ∧
      ¬∀ g ∈ filledLayout.fields.take 2, g.minLen = g.maxLen := by
  have hfilled := fixed_before_records ofDecls_filledDecls
    (show filledLayout.fields = filledLayout.fields.take 2 ++ [_] from rfl) rfl
  have hbeyond : maxPayload < maxTotal (filledLayout.fields.take 2) := by decide
  obtain ⟨hfull, -, hmin, -⟩ := hfilled.2 hbeyond
  exact ⟨hfull, hmin, mt hfilled.1.mp (Nat.not_le.mpr hbeyond)⟩

/-- A field of variable length can stand before records: its greatest length is hidden by the end of
the payload. -/
theorem variable_before_records :
    ¬∀ (owner : String) (decls : List FieldDecl) (l : Layout) (before : List Field) (f : Field),
      ofDecls owner decls = .ok l → l.fields = before ++ [f] → f.isRecords = true →
        ∀ g ∈ before, g.minLen = g.maxLen := by
  intro h
  have hfixed := h _ _ _ (filledLayout.fields.take 2) _ ofDecls_filledDecls rfl rfl
  exact absurd (hfixed _ List.mem_cons_self) (by decide)

end Layout

end WireSchema
