import Mathlib
import WireSchema.Proofs.Results
import WireSchema.Proofs.Schema.LengthAlgebra
import WireSchema.Proofs.Text.Split

/-!
# Fields that have been checked

What holds of every field that a declaration gives, and what its place in the message adds.

* `Field.WellFormed` — the kind and the bounds of a field agree: a scalar has the width of its kind,
  the bounds of a sequence leave room for its count and end at a whole element that the count can
  express, and records have a positive length that is the sum of their columns;
* `Field.Placed` — a sequence has a count exactly if other fields follow, records come last and
  after fields of fixed length, and the field fits the room that the fields before it leave;
* `FieldDecl.sequenceField_iff` — which sequences are accepted, and their bounds;
* `Field.wellFormed_of_ofDecl`, `Field.placed_of_ofDecl` — both hold of each field of a declaration;
* `Field.isWord_of_ofDecl` — its name is a word.
-/

namespace WireSchema

/-! ### Names -/

/-- The name of a declaration is one of its words. -/
theorem FieldDecl.isWord_of_nameAndType {d : FieldDecl} {name type : String}
    (h : d.nameAndType = .ok (name, type)) : Text.IsWord name.toList := by
  unfold nameAndType at h
  split at h
  · rename_i first second hwords
    cases h
    rw [String.toList_ofList]
    exact Text.isWord_of_mem_words (hwords ▸ List.mem_cons_self)
  · cases h
  · cases h

/-! ### Scalars -/

/-- A scalar kind that a declaration can give: `bool` is plain, and flags have distinct names and a
bit for each. -/
def ScalarKind.WellFormed : ScalarKind → Prop
  | .integer type format => type = .bool → format = .plain
  | .flags names width => names.Nodup ∧ names.length ≤ 8 * width.bytes

theorem firstRepeat?_eq_none {seen list : List String} (h : firstRepeat? seen list = none) :
    list.Nodup ∧ ∀ s ∈ list, s ∉ seen := by
  induction list generalizing seen with
  | nil => simp
  | cons s list ih =>
    rw [firstRepeat?] at h
    split at h
    · simp at h
    · rename_i hs
      obtain ⟨hnodup, hseen⟩ := ih h
      refine ⟨List.nodup_cons.mpr ⟨fun hmem => hseen s hmem List.mem_cons_self, hnodup⟩, ?_⟩
      intro t ht
      rcases List.mem_cons.mp ht with rfl | ht
      · exact hs
      · exact fun hmem => hseen t ht (List.mem_cons_of_mem _ hmem)

theorem flagsWidth?_eq_some {count : Nat} {w : ByteWidth} (h : flagsWidth? count = some w) :
    count ≤ 8 * w.bytes := by
  unfold flagsWidth? at h
  split at h
  · cases h
    simpa [ByteWidth.bytes] using ‹count ≤ 8›
  split at h
  · cases h
    simpa [ByteWidth.bytes] using ‹count ≤ 16›
  split at h
  · cases h
    simpa [ByteWidth.bytes, maxFlags] using ‹count ≤ maxFlags›
  · cases h

theorem ByteWidth.ofBytes?_eq_some {n : Nat} {w : ByteWidth} (h : ByteWidth.ofBytes? n = some w) :
    w.bytes = n := by
  unfold ByteWidth.ofBytes? at h
  split at h <;> cases h <;> rfl

namespace FieldDecl

variable {d : FieldDecl} {name : String}

theorem integerKind_wellFormed {type : IntType} {kind : ScalarKind}
    (h : d.integerKind name type = .ok kind) : kind.WellFormed := by
  rw [integerKind, bind_eq_ok] at h
  obtain ⟨format, -, h⟩ := h
  split at h
  · cases h
  · rename_i hbool
    cases h
    intro htype
    by_contra hformat
    exact hbool ⟨htype, hformat⟩

/-- The width of flags is never below the one that their number requires. -/
theorem le_declaredFlagsWidth {declared : Option Nat} {required w : ByteWidth}
    (h : declaredFlagsWidth name declared required = .ok w) : required.bytes ≤ w.bytes := by
  unfold declaredFlagsWidth at h
  split at h
  · cases h
    exact Nat.le_refl _
  split at h
  · cases h
  split at h
  · rename_i u hu
    cases h
    rw [ByteWidth.ofBytes?_eq_some hu]
    omega
  · cases h

theorem flagsKind_wellFormed {kind : ScalarKind} (h : d.flagsKind name = .ok kind) :
    kind.WellFormed := by
  unfold flagsKind at h
  split at h
  · cases h
  · cases h
  rename_i names _
  split at h
  · cases h
  · cases h
  rename_i required hrepeat hrequired
  rw [bind_eq_ok] at h
  obtain ⟨w, hw, h⟩ := h
  cases h
  have hcount := flagsWidth?_eq_some hrequired
  have hle := le_declaredFlagsWidth hw
  exact ⟨(firstRepeat?_eq_none hrepeat).1, by omega⟩

end FieldDecl

/-! ### Sequences -/

/-- The kind and the bounds of a sequence agree. -/
structure SequenceShape (type : SeqType) (count : Option CountType) (format : Format)
    (minLen maxLen : Nat) : Prop where
  count_le : countBytes count ≤ minLen
  min_le_max : minLen ≤ maxLen
  whole : type.elementSize ∣ maxLen - countBytes count
  expressible : ∀ t, count = some t → (maxLen - countBytes count) / type.elementSize ≤ t.maxCount
  plain_or_hex : format = .plain ∨ format = .hex ∧ type = .vecU16

namespace FieldDecl

variable {d : FieldDecl} {name : String}

theorem countType_eq_none_iff {isLast : Bool} {count : Option CountType}
    (h : d.countType name isLast = .ok count) : count = none ↔ isLast = true := by
  unfold countType at h
  cases isLast with
  | true =>
    cases h
    simp
  | false =>
    simp only [Bool.false_eq_true, if_false] at h
    split at h
    · cases h
      simp
    split at h
    · cases h
      simp
    · cases h

theorem sequenceFormat_eq {type : SeqType} {format : Format}
    (h : d.sequenceFormat name type = .ok format) :
    format = .plain ∨ format = .hex ∧ type = .vecU16 := by
  rw [sequenceFormat, bind_eq_ok] at h
  obtain ⟨given, -, h⟩ := h
  split at h
  · cases h
  · split at h
    · cases h
      exact Or.inr ⟨rfl, ‹_›⟩
    · cases h
  · cases h
    exact Or.inl rfl

/-- What bounds a declared sequence of elements of a type, with a count or without one, after fields
that take at least `prevMin` bytes. -/
def sequenceBounds (d : FieldDecl) (type : SeqType) (count : Option CountType) (prevMin : ℕ) :
    SequenceBounds :=
  ⟨type.elementSize, count, maxPayload - prevMin, d.attributes.minLen, d.attributes.maxLen⟩

variable {type : SeqType} {isLast : Bool} {prevMin : ℕ}

/-- The room of a sequence is a number of 64 bits, whatever is declared. -/
theorem room_lt (d : FieldDecl) (type : SeqType) (count : Option CountType) (prevMin : ℕ) :
    (d.sequenceBounds type count prevMin).room < 2 ^ 64 := by
  show maxPayload - prevMin < 2 ^ 64
  unfold maxPayload
  omega

/-- What is left to check of a sequence whose format and count type are valid. -/
theorem sequenceField_of_valid {format : Format} {count : Option CountType}
    (hformat : d.sequenceFormat name type = .ok format)
    (hcount : d.countType name isLast = .ok count) :
    d.sequenceField name type isLast prevMin =
      match (d.sequenceBounds type count prevMin).minLen? with
      | none => .error (.invalidAttribute name "min_len" .lengthTooLarge)
      | some minLen =>
        if (d.sequenceBounds type count prevMin).maxLen < minLen then
          .error (.maxBelowMin name minLen (d.sequenceBounds type count prevMin).maxLen)
        else
          .ok ⟨name, minLen, (d.sequenceBounds type count prevMin).maxLen,
            .sequence type count format⟩ := by
  simp only [sequenceField, hformat, hcount]
  rfl

/-- The field of a sequence whose format and count type are valid. It exists just if there is a
greatest number of elements that is allowed, and the declared minimum is not above it. -/
theorem sequenceField_iff {format : Format} {count : Option CountType} {f : Field}
    (hformat : d.sequenceFormat name type = .ok format)
    (hcount : d.countType name isLast = .ok count) :
    d.sequenceField name type isLast prevMin = .ok f ↔
      ∃ most, IsGreatest {k | (d.sequenceBounds type count prevMin).Allows k} most ∧
        d.attributes.minLen.getD 0 ≤ most ∧
        f = ⟨name, countBytes count + d.attributes.minLen.getD 0 * type.elementSize,
          countBytes count + most * type.elementSize, .sequence type count format⟩ := by
  have hsize : 0 < (d.sequenceBounds type count prevMin).elementSize := type.elementSize_pos
  have hbounds := SequenceBounds.bounds_iff hsize (d.room_lt type count prevMin)
  rw [sequenceField_of_valid hformat hcount]
  constructor
  · intro h
    split at h
    · cases h
    rename_i least hleast
    split at h
    · cases h
    rename_i hle
    cases h
    obtain ⟨most, hmost, hdeclared, rfl⟩ := (hbounds least).mp ⟨hleast, Nat.not_lt.mp hle⟩
    refine ⟨most, hmost, hdeclared, ?_⟩
    rw [SequenceBounds.maxLen_of_isGreatest hsize hmost]
    rfl
  · rintro ⟨most, hmost, hdeclared, rfl⟩
    obtain ⟨hleast, hle⟩ := (hbounds _).mpr ⟨most, hmost, hdeclared, rfl⟩
    simp only [hleast]
    rw [if_neg (Nat.not_lt.mpr hle), SequenceBounds.maxLen_of_isGreatest hsize hmost]
    rfl

/-- What a sequence declaration gives: a number of elements that is declared as the least one, and
the greatest number that is allowed. -/
theorem sequenceField_eq_ok {f : Field} (h : d.sequenceField name type isLast prevMin = .ok f) :
    ∃ count format most, (count = none ↔ isLast = true) ∧
      (format = .plain ∨ format = .hex ∧ type = .vecU16) ∧
      IsGreatest {k | (d.sequenceBounds type count prevMin).Allows k} most ∧
      d.attributes.minLen.getD 0 ≤ most ∧
      f = ⟨name, countBytes count + d.attributes.minLen.getD 0 * type.elementSize,
        countBytes count + most * type.elementSize, .sequence type count format⟩ := by
  obtain ⟨format, hformat, hrest⟩ := bind_eq_ok.mp h
  obtain ⟨count, hcount, -⟩ := bind_eq_ok.mp hrest
  obtain ⟨most, hmost, hle, hf⟩ := (sequenceField_iff hformat hcount).mp h
  exact ⟨count, format, most, countType_eq_none_iff hcount, sequenceFormat_eq hformat, hmost, hle,
    hf⟩

end FieldDecl

/-! ### Records -/

/-- Columns that can stand in one record: scalars as declared, with distinct names. -/
structure ColumnsShape (columns : List Column) : Prop where
  kinds : ∀ c ∈ columns, c.kind.WellFormed
  names : (columns.map Column.name).Nodup

/-- The kind and the bounds of an array of records agree. -/
structure RecordsShape (columns : List Column) (itemLen maxItems minLen maxLen : Nat) : Prop where
  columns_shape : ColumnsShape columns
  itemLen_eq : itemLen = itemLength columns
  itemLen_pos : 0 < itemLen
  minLen_eq : minLen = 0
  maxLen_eq : maxLen = maxItems * itemLen

theorem columnsShape_nil : ColumnsShape [] :=
  ⟨fun _ h => absurd h List.not_mem_nil, List.nodup_nil⟩

/-- Columns of positive length are at least one. -/
theorem ne_nil_of_itemLength_pos {columns : List Column} (h : 0 < itemLength columns) :
    columns ≠ [] := by
  rintro rfl
  exact absurd h (Nat.lt_irrefl 0)

namespace FieldDecl

variable {d : FieldDecl} {name : String}

theorem subfield_wellFormed {offset : Nat} {kind : ScalarKind}
    (h : d.subfield offset = .ok (name, some kind)) : kind.WellFormed := by
  rw [subfield, bind_eq_ok] at h
  obtain ⟨⟨word, type⟩, -, h⟩ := h
  simp only at h
  split at h
  · cases h
  · rw [bind_eq_ok] at h
    obtain ⟨k, hk, h⟩ := h
    cases h
    exact integerKind_wellFormed hk
  · rw [bind_eq_ok] at h
    obtain ⟨k, hk, h⟩ := h
    cases h
    exact flagsKind_wellFormed hk
  · rw [bind_eq_ok] at h
    obtain ⟨f, -, h⟩ := h
    cases h
  · cases h

theorem addColumn_shape {owner : String} {columns more : List Column}
    (hc : ColumnsShape columns) (h : addColumn owner columns d = .ok more) :
    ColumnsShape more := by
  rw [addColumn, bind_eq_ok] at h
  obtain ⟨⟨name, kind⟩, hsub, h⟩ := h
  simp only at h
  split at h
  · cases h
  rename_i hfresh
  split at h
  · cases h
  cases h
  refine ⟨?_, ?_⟩
  · intro c hmem
    rcases List.mem_append.mp hmem with hmem | hmem
    · exact hc.kinds c hmem
    · rw [List.mem_singleton.mp hmem]
      exact subfield_wellFormed hsub
  · rw [List.map_append, List.map_singleton, List.nodup_append]
    refine ⟨hc.names, List.nodup_singleton _, ?_⟩
    intro a ha b hb hab
    rw [List.mem_singleton.mp hb] at hab
    obtain ⟨c, hmem, rfl⟩ := List.mem_map.mp ha
    exact hfresh (List.any_eq_true.mpr ⟨c, hmem, decide_eq_true hab⟩)

/-- The field that a records declaration gives, and where it can stand. -/
theorem recordsField_eq_ok {isLast : Bool} {prevMin prevMax : Nat} {f : Field}
    (h : d.recordsField name isLast prevMin prevMax = .ok f) :
    isLast = true ∧ prevMin = prevMax ∧ ∃ recordName fields columns,
      d.attributes.fields = some fields ∧ fields.foldlM (addColumn name) [] = .ok columns ∧
      f = ⟨name, 0, (maxPayload - prevMin) / itemLength columns * itemLength columns,
        .records recordName columns (itemLength columns)
          ((maxPayload - prevMin) / itemLength columns)⟩ ∧
      0 < itemLength columns ∧ ColumnsShape columns := by
  rw [recordsField] at h
  cases isLast with
  | false => cases h
  | true =>
    by_cases hprev : prevMin = prevMax
    · refine ⟨rfl, hprev, ?_⟩
      simp only [Bool.not_true, Bool.false_eq_true, if_false, hprev, ne_eq, not_true_eq_false] at h
      split at h
      · cases h
      · cases h
      rename_i recordName fields _ hfields
      rw [bind_eq_ok] at h
      obtain ⟨columns, hcolumns, h⟩ := h
      have hshape : ColumnsShape columns :=
        foldlM_invariant (fun _ _ _ _ hs hstep => addColumn_shape hs hstep) columnsShape_nil
          hcolumns
      split at h
      · cases h
      · rename_i hpos
        cases h
        exact ⟨recordName, fields, columns, hfields, hcolumns, by rw [hprev], by omega, hshape⟩
    · simp only [Bool.not_true, Bool.false_eq_true, if_false, ne_eq, hprev, not_false_eq_true,
        if_true] at h
      cases h

end FieldDecl

/-! ### Fields -/

namespace Field

/-- The kind and the bounds of a field agree. -/
def WellFormed (f : Field) : Prop :=
  match f.kind with
  | .scalar kind => kind.WellFormed ∧ f.minLen = kind.width.bytes ∧ f.maxLen = kind.width.bytes
  | .sequence type count format => SequenceShape type count format f.minLen f.maxLen
  | .records _ columns itemLen maxItems => RecordsShape columns itemLen maxItems f.minLen f.maxLen

/-- A field can stand at its place: behind fields that take at least `prevMin` and at most `prevMax`
bytes, and with other fields after it unless it is the last one. -/
def Placed (isLast : Bool) (prevMin prevMax : Nat) (f : Field) : Prop :=
  match f.kind with
  | .scalar _ => True
  | .sequence _ count _ => (count = none ↔ isLast = true) ∧ f.maxLen ≤ maxPayload - prevMin
  | .records _ _ itemLen maxItems =>
    isLast = true ∧ prevMin = prevMax ∧ maxItems = (maxPayload - prevMin) / itemLen

section

variable {f : Field} {kind : ScalarKind} {type : SeqType} {count : Option CountType}
  {format : Format} {recordName : String} {columns : List Column} {itemLen maxItems : Nat}
  {isLast : Bool} {prevMin prevMax : Nat}

theorem WellFormed.scalar (h : f.WellFormed) (hkind : f.kind = .scalar kind) :
    kind.WellFormed ∧ f.minLen = kind.width.bytes ∧ f.maxLen = kind.width.bytes := by
  unfold WellFormed at h
  rwa [hkind] at h

theorem WellFormed.sequence (h : f.WellFormed) (hkind : f.kind = .sequence type count format) :
    SequenceShape type count format f.minLen f.maxLen := by
  unfold WellFormed at h
  rwa [hkind] at h

theorem WellFormed.records (h : f.WellFormed)
    (hkind : f.kind = .records recordName columns itemLen maxItems) :
    RecordsShape columns itemLen maxItems f.minLen f.maxLen := by
  unfold WellFormed at h
  rwa [hkind] at h

theorem Placed.sequence (h : f.Placed isLast prevMin prevMax)
    (hkind : f.kind = .sequence type count format) :
    (count = none ↔ isLast = true) ∧ f.maxLen ≤ maxPayload - prevMin := by
  unfold Placed at h
  rwa [hkind] at h

theorem Placed.records (h : f.Placed isLast prevMin prevMax)
    (hkind : f.kind = .records recordName columns itemLen maxItems) :
    isLast = true ∧ prevMin = prevMax ∧ maxItems = (maxPayload - prevMin) / itemLen := by
  unfold Placed at h
  rwa [hkind] at h

end

/-- A scalar field takes the bytes of its width. -/
theorem wellFormed_ofScalar {name : String} {kind : ScalarKind} (h : kind.WellFormed) :
    (ofScalar name kind).WellFormed :=
  ⟨h, rfl, rfl⟩

variable {d : FieldDecl} {isLast : Bool} {prevMin prevMax : Nat} {f : Field}

theorem wellFormed_sequence {name : String} {type : SeqType}
    (h : d.sequenceField name type isLast prevMin = .ok f) : f.WellFormed := by
  obtain ⟨count, format, most, -, hformat, hmost, hle, rfl⟩ := FieldDecl.sequenceField_eq_ok h
  have hcontent : countBytes count + most * type.elementSize - countBytes count
      = most * type.elementSize := Nat.add_sub_cancel_left _ _
  refine ⟨Nat.le_add_right _ _, Nat.add_le_add_left (Nat.mul_le_mul_right _ hle) _, ?_, ?_, hformat⟩
  · rw [hcontent]
    exact Nat.dvd_mul_left _ _
  · intro t ht
    rw [hcontent, Nat.mul_div_cancel _ type.elementSize_pos]
    exact (t.le_maxCount_iff most).mpr (hmost.1.expressible t ht)

theorem placed_sequence {name : String} {type : SeqType}
    (h : d.sequenceField name type isLast prevMin = .ok f) : f.Placed isLast prevMin prevMax := by
  obtain ⟨count, format, most, hlast, -, hmost, -, rfl⟩ := FieldDecl.sequenceField_eq_ok h
  exact ⟨hlast, hmost.1.fits⟩

/-- All that a declaration gives: a number, a sequence or records, of the declared name. -/
theorem ofDecl_eq_ok (h : ofDecl d isLast prevMin prevMax = .ok f) :
    ∃ name keyword, d.nameAndType = .ok (name, keyword) ∧
      ((∃ kind, kind.WellFormed ∧ f = ofScalar name kind) ∨
        (∃ type, d.sequenceField name type isLast prevMin = .ok f) ∨
        d.recordsField name isLast prevMin prevMax = .ok f) := by
  rw [ofDecl, bind_eq_ok] at h
  obtain ⟨⟨name, keyword⟩, hname, h⟩ := h
  refine ⟨name, keyword, hname, ?_⟩
  simp only at h
  split at h
  · cases h
  · rw [bind_eq_ok] at h
    obtain ⟨kind, hkind, h⟩ := h
    cases h
    exact .inl ⟨kind, FieldDecl.integerKind_wellFormed hkind, rfl⟩
  · rw [bind_eq_ok] at h
    obtain ⟨kind, hkind, h⟩ := h
    cases h
    exact .inl ⟨kind, FieldDecl.flagsKind_wellFormed hkind, rfl⟩
  · exact .inr (.inl ⟨_, h⟩)
  · exact .inr (.inr h)

/-- The kind and the bounds of a declared field agree. -/
theorem wellFormed_of_ofDecl (h : ofDecl d isLast prevMin prevMax = .ok f) : f.WellFormed := by
  obtain ⟨name, keyword, -, ⟨kind, hkind, rfl⟩ | ⟨type, h⟩ | h⟩ := ofDecl_eq_ok h
  · exact wellFormed_ofScalar hkind
  · exact wellFormed_sequence h
  · obtain ⟨-, -, recordName, fields, columns, -, -, rfl, hpos, hshape⟩ :=
      FieldDecl.recordsField_eq_ok h
    exact ⟨hshape, rfl, hpos, rfl, rfl⟩

/-- A declared field can stand at its place. -/
theorem placed_of_ofDecl (h : ofDecl d isLast prevMin prevMax = .ok f) :
    f.Placed isLast prevMin prevMax := by
  obtain ⟨name, keyword, -, ⟨kind, -, rfl⟩ | ⟨type, h⟩ | h⟩ := ofDecl_eq_ok h
  · trivial
  · exact placed_sequence h
  · obtain ⟨hlast, hprev, recordName, fields, columns, -, -, rfl, -⟩ :=
      FieldDecl.recordsField_eq_ok h
    exact ⟨hlast, hprev, rfl⟩

/-- A declared field has the declared name. -/
theorem nameAndType_of_ofDecl (h : ofDecl d isLast prevMin prevMax = .ok f) :
    ∃ keyword, d.nameAndType = .ok (f.name, keyword) := by
  obtain ⟨name, keyword, hname, ⟨kind, -, rfl⟩ | ⟨type, h⟩ | h⟩ := ofDecl_eq_ok h
  · exact ⟨keyword, hname⟩
  · obtain ⟨count, format, most, -, -, -, -, rfl⟩ := FieldDecl.sequenceField_eq_ok h
    exact ⟨keyword, hname⟩
  · obtain ⟨-, -, recordName, fields, columns, -, -, rfl, -⟩ := FieldDecl.recordsField_eq_ok h
    exact ⟨keyword, hname⟩

/-- The name of a declared field is a word. -/
theorem isWord_of_ofDecl (h : ofDecl d isLast prevMin prevMax = .ok f) :
    Text.IsWord f.name.toList := by
  obtain ⟨keyword, hname⟩ := nameAndType_of_ofDecl h
  exact FieldDecl.isWord_of_nameAndType hname

end Field

end WireSchema
