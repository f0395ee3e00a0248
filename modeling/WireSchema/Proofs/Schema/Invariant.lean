import Mathlib
import WireSchema.Proofs.Schema.Layout

/-!
# What a layout looks like

The codecs rely on what is checked when a layout is built: names are distinct, bounds are totals,
each flag has a bit of its own, a sequence shows its length unless it is the last field, and records
come last and are made of numbers. All of it holds of every layout that is built from declarations.

* `Field.HasFlags`, `Field.hasFlags_of_wellFormed` — the bits of flags;
* `FieldDecl.Declares`, `Field.declares_of_ofDecl` — a field and its columns are the declared ones;
* `Layout.Regular` — what holds of a layout, field by field;
* `Layout.regular_of_ofDecls` — it holds of every layout of declared fields.
-/

namespace WireSchema

/-! ### Flags -/

/-- The flags of a field have distinct names, and the flag at a position has the bit at this
position, which is within the width of the field. -/
structure Field.HasFlags (f : Field) (names : List String) (width : ByteWidth) : Prop where
  names_nodup : names.Nodup
  width_eq : width.bytes = 1 ∨ width.bytes = 2 ∨ width.bytes = 4
  length_le : names.length ≤ 8 * width.bytes
  mask : ∀ i flag, names[i]? = some flag →
    f.flagMask? flag = some (2 ^ i) ∧ 2 ^ i < 2 ^ (8 * width.bytes)
  mask_inj : ∀ a ∈ names, ∀ b ∈ names, f.flagMask? a = f.flagMask? b → a = b
  mask_none : ∀ flag, f.flagMask? flag = none ↔ flag ∉ names

/-- In a list without repetition, an entry is first found where it stands. -/
theorem idxOf?_of_nodup {names : List String} (hnodup : names.Nodup) {i : ℕ} {flag : String}
    (h : names[i]? = some flag) : names.idxOf? flag = some i := by
  obtain ⟨hi, rfl⟩ := List.getElem?_eq_some_iff.mp h
  refine List.idxOf?_eq_some_iff.mpr ⟨hi, rfl, fun j hj heq => ?_⟩
  exact absurd ((hnodup.getElem_inj_iff).mp heq) (Nat.ne_of_lt hj)

namespace Field

variable {f : Field} {names : List String} {width : ByteWidth}

theorem flagMask?_eq (hkind : f.kind = .scalar (.flags names width)) (flag : String) :
    f.flagMask? flag = (names.idxOf? flag).map (2 ^ ·) := by
  simp only [flagMask?, flagNames, hkind, Nat.one_shiftLeft]

/-- Flags that are well formed have a bit of their own each. -/
theorem hasFlags_of_wellFormed (hkind : f.kind = .scalar (.flags names width))
    (h : (ScalarKind.flags names width).WellFormed) : f.HasFlags names width := by
  obtain ⟨hnodup, hlength⟩ := h
  have hmask : ∀ i flag, names[i]? = some flag → f.flagMask? flag = some (2 ^ i) := by
    intro i flag hflag
    rw [flagMask?_eq hkind, idxOf?_of_nodup hnodup hflag]
    rfl
  refine ⟨hnodup, by cases width <;> simp [ByteWidth.bytes], hlength, ?_, ?_, ?_⟩
  · intro i flag hflag
    obtain ⟨hi, -⟩ := List.getElem?_eq_some_iff.mp hflag
    exact ⟨hmask i flag hflag, Nat.pow_lt_pow_right Nat.one_lt_two (by omega)⟩
  · intro a ha b hb hab
    obtain ⟨i, hi⟩ := List.mem_iff_getElem?.mp ha
    obtain ⟨j, hj⟩ := List.mem_iff_getElem?.mp hb
    rw [hmask i a hi, hmask j b hj, Option.some.injEq] at hab
    have hij := Nat.pow_right_injective (Nat.le_refl 2) hab
    exact Option.some.inj (hi.symm.trans (hij ▸ hj))
  · intro flag
    rw [flagMask?_eq hkind, Option.map_eq_none_iff, List.idxOf?_eq_none_iff]

end Field

/-! ### Declarations and their fields -/

/-- A declaration names the field, and each declared subfield is the column at its place, which is a
number. -/
def FieldDecl.Declares (d : FieldDecl) (f : Field) : Prop :=
  (∃ keyword, d.nameAndType = .ok (f.name, keyword)) ∧
    ∀ recordName columns itemLen maxItems,
      f.kind = .records recordName columns itemLen maxItems →
        ∃ subfields, d.attributes.fields = some subfields ∧
          List.Forall₂ (fun sub (c : Column) =>
            ∃ offset, sub.subfield offset = .ok (c.name, some c.kind)) subfields columns

/-- Each subfield adds the column that it declares. -/
theorem FieldDecl.subfield_of_foldlM {owner : String} {subfields : List FieldDecl}
    {done columns : List Column} (h : subfields.foldlM (addColumn owner) done = .ok columns) :
    ∃ more, columns = done ++ more ∧ List.Forall₂
      (fun sub (c : Column) => ∃ offset, sub.subfield offset = .ok (c.name, some c.kind))
      subfields more := by
  induction subfields generalizing done with
  | nil =>
    cases h
    exact ⟨[], (List.append_nil _).symm, .nil⟩
  | cons sub rest ih =>
    rw [List.foldlM_cons, bind_eq_ok] at h
    obtain ⟨next, hadd, h⟩ := h
    rw [addColumn, bind_eq_ok] at hadd
    obtain ⟨⟨name, kind⟩, hsub, hadd⟩ := hadd
    simp only at hadd
    split at hadd
    · cases hadd
    split at hadd
    · cases hadd
    rename_i kind
    cases hadd
    obtain ⟨more, rfl, hmore⟩ := ih h
    exact ⟨⟨name, kind⟩ :: more, List.append_assoc _ _ _, .cons ⟨_, hsub⟩ hmore⟩

theorem Field.declares_of_ofDecl {d : FieldDecl} {isLast : Bool} {prevMin prevMax : ℕ} {f : Field}
    (h : ofDecl d isLast prevMin prevMax = .ok f) : d.Declares f := by
  refine ⟨nameAndType_of_ofDecl h, fun recordName columns itemLen maxItems hkind => ?_⟩
  obtain ⟨name, keyword, -, ⟨kind, -, rfl⟩ | ⟨type, h⟩ | h⟩ := ofDecl_eq_ok h
  · cases hkind
  · obtain ⟨count, format, most, -, -, -, -, rfl⟩ := FieldDecl.sequenceField_eq_ok h
    cases hkind
  · obtain ⟨-, -, recordName, subfields, columns, hsubfields, hcolumns, rfl, -⟩ :=
      FieldDecl.recordsField_eq_ok h
    cases hkind
    obtain ⟨more, hmore, hdeclared⟩ := FieldDecl.subfield_of_foldlM hcolumns
    cases hmore
    exact ⟨subfields, hsubfields, hdeclared⟩

/-! ### Layouts -/

/-- What holds of a layout, field by field. -/
structure Layout.Regular (l : Layout) : Prop where
  /-- The names of fields are distinct. -/
  names : (l.fields.map Field.name).Nodup
  /-- The least length is the sum of the least lengths. -/
  minLen_eq : l.minLen = (l.fields.map Field.minLen).sum
  /-- The greatest length is the sum of the greatest lengths, cut off at the end of a payload. -/
  maxLen_eq : l.maxLen = min maxPayload (l.fields.map Field.maxLen).sum
  /-- A number takes the bytes of its width. -/
  scalars : ∀ f ∈ l.fields, ∀ kind, f.kind = .scalar kind →
    f.minLen = kind.width.bytes ∧ f.maxLen = kind.width.bytes
  /-- Each flag has a bit of its own. -/
  flags : ∀ f ∈ l.fields, ∀ names width, f.kind = .scalar (.flags names width) →
    f.HasFlags names width
  /-- A sequence has a count unless it is the last field, and its bounds leave room for it. -/
  sequences : ∀ before f after, l.fields = before ++ f :: after → ∀ type count format,
    f.kind = .sequence type count format →
      (count ≠ none ↔ after ≠ []) ∧ SequenceShape type count format f.minLen f.maxLen
  /-- Records come last, are made of numbers with distinct names, and fill the greatest length. -/
  records : ∀ before f after, l.fields = before ++ f :: after →
    ∀ recordName columns itemLen maxItems, f.kind = .records recordName columns itemLen maxItems →
      after = [] ∧ columns ≠ [] ∧ (columns.map Column.name).Nodup ∧
        itemLen = (columns.map fun c => c.kind.width.bytes).sum ∧ 0 < itemLen ∧
        f.maxLen = maxItems * itemLen ∧
        ∀ c ∈ columns, ∀ names width, c.kind = .flags names width →
          (Field.ofScalar c.name c.kind).HasFlags names width

theorem itemLength_eq_sum (columns : List Column) :
    itemLength columns = (columns.map fun c => c.kind.width.bytes).sum := by
  induction columns with
  | nil => rfl
  | cons c columns ih => rw [itemLength, List.map_cons, List.sum_cons, ih]

namespace Layout

theorem WellFormed.regular {l : Layout} (h : l.WellFormed) : l.Regular := by
  have hplaced : ∀ {before f after}, l.fields = before ++ f :: after →
      f.Placed after.isEmpty (minTotal before) (min (maxTotal before) maxPayload) := by
    intro before f after hfields
    have hplaced := (hfields ▸ h.placed).placed (Nat.zero_le _)
    rwa [Nat.zero_add, Nat.zero_add] at hplaced
  refine ⟨h.names, h.minLen_eq, h.maxLen_eq.trans (Nat.min_comm _ _), ?_, ?_, ?_, ?_⟩
  · intro f hf kind hkind
    exact ((h.fields f hf).scalar hkind).2
  · intro f hf names width hkind
    exact Field.hasFlags_of_wellFormed hkind ((h.fields f hf).scalar hkind).1
  · intro before f after hfields type count format hkind
    have hwf := h.fields f (hfields ▸ List.mem_append_right _ List.mem_cons_self)
    have hlast := ((hplaced hfields).sequence hkind).1
    exact ⟨not_congr (hlast.trans List.isEmpty_iff), hwf.sequence hkind⟩
  · intro before f after hfields recordName columns itemLen maxItems hkind
    have hwf := h.fields f (hfields ▸ List.mem_append_right _ List.mem_cons_self)
    have hshape := hwf.records hkind
    have hlast := ((hplaced hfields).records hkind).1
    have hcolumns : columns ≠ [] :=
      ne_nil_of_itemLength_pos (hshape.itemLen_eq ▸ hshape.itemLen_pos)
    refine ⟨List.isEmpty_iff.mp hlast, hcolumns, hshape.columns_shape.names,
      hshape.itemLen_eq.trans (itemLength_eq_sum columns), hshape.itemLen_pos, hshape.maxLen_eq, ?_⟩
    intro c hc names width hflags
    refine Field.hasFlags_of_wellFormed ?_ (hflags ▸ hshape.columns_shape.kinds c hc)
    rw [hflags]
    rfl

/-- A layout that is built from declarations is regular, and its fields are the declared ones. -/
theorem regular_of_ofDecls {owner : String} {decls : List FieldDecl} {l : Layout}
    (h : ofDecls owner decls = .ok l) :
    l.Regular ∧ List.Forall₂ FieldDecl.Declares decls l.fields := by
  refine ⟨(wellFormed_of_ofDecls h).regular, (ofDecl_of_ofDecls h).imp ?_⟩
  rintro d f ⟨isLast, prevMin, prevMax, hf⟩
  exact Field.declares_of_ofDecl hf

/-- Flags that are wider than they have to be, a number, and records with flags. -/
def strokeDecls : List FieldDecl :=
  [.long "mode flags" (some (.names ["erase", "smear"])) { length := some 2 },
    .short "size u8",
    .long "dabs struct" none
      { recordName := some "Dab"
        fields := some [.short "x i16", .long "on flags" (some (.names ["up"])) {}] }]

/-- The layout of `strokeDecls`. -/
def strokeLayout : Layout :=
  ⟨[Field.ofScalar "mode" (.flags ["erase", "smear"] .two),
    Field.ofScalar "size" (.integer .u8 .plain),
    ⟨"dabs", 0, 65532, .records "Dab"
      [⟨"x", .integer .i16 .plain⟩, ⟨"on", .flags ["up"] .one⟩] 3 21844⟩], 3, 65535⟩

theorem regular_of_ofDecls_stroke :
    ofDecls "Stroke" strokeDecls = .ok strokeLayout ∧ strokeLayout.Regular ∧
      List.Forall₂ FieldDecl.Declares strokeDecls strokeLayout.fields := by
  have h : ofDecls "Stroke" strokeDecls = .ok strokeLayout := by cbv
  exact ⟨h, regular_of_ofDecls h⟩

end Layout

end WireSchema
