import Mathlib
import WireSchema.Proofs.Base64
import WireSchema.Proofs.Command.Flags
import WireSchema.Proofs.Command.Number
import WireSchema.Proofs.Wire.Conformance

/-!
# Values in commands

The text of a value is read back as that value, except for the bits of flags that have no name. Text
that is empty stands for the zero value, which is what a missing argument is read as.

* `Field.clearUndeclared` — a value without the bits that have no name;
* `Field.Readable` — a value has a text that is read back;
* `Field.readable_of_matches` — every value that matches a field is readable;
* `Field.readBack` — what the text of a value means that can be written;
* `Field.readable_of_accepts` — every value that can be written is readable;
* `recordsOf_scaledRecord` — records are read back.
-/

namespace WireSchema

open WireSchema.Text

/-- The value of a field without the bits of flags that have no name. -/
def Field.clearUndeclared (f : Field) (v : Value) : Value :=
  match f.kind, v with
  | .scalar (.flags names _), .int n => .int (n % (2 ^ names.length : ℕ))
  | _, v => v

/-- A value has a text that is read back as `out`, which is zero if the text is empty. -/
def Field.Readable (options : CommandOptions) (f : Field) (v out : Value) : Prop :=
  ∃ s, f.kind.render? v = some s ∧ f.ofText options s = .ok out ∧ (s = [] → out = Value.zero f)

namespace Field

variable {options : CommandOptions} {f : Field} {v : Value}

/-! ### Scalars -/

/-- Numbers other than truth values and colors are written in their format. -/
theorem render?_number {type : IntType} {format : Format} (hbool : type ≠ .bool)
    (hcolor : type = .argb32 → format ≠ .plain) (n : ℤ) :
    (FieldKind.scalar (.integer type format)).render? (.int n) = some (type.render format n) := by
  cases type with
  | bool => exact absurd rfl hbool
  | argb32 =>
    cases format with
    | plain => exact absurd rfl (hcolor rfl)
    | _ => rfl
  | _ => rfl

theorem ofText_number {type : IntType} {format : Format}
    (hkind : f.kind = .scalar (.integer type format)) (hbool : type ≠ .bool)
    (hcolor : type = .argb32 → format ≠ .plain) (s : List Char) :
    f.ofText options s = (type.read format f.name s).map Value.int := by
  unfold ofText
  rw [hkind]
  split <;> rename_i heq <;> cases heq
  · exact absurd rfl hbool
  · exact absurd rfl (hcolor rfl)
  · rfl

theorem readable_number {type : IntType} {format : Format}
    (hkind : f.kind = .scalar (.integer type format)) (hbool : type ≠ .bool)
    (hcolor : type = .argb32 → format ≠ .plain) {n : ℤ} (hn : type.contains n = true) :
    f.Readable options (.int n) (.int n) := by
  refine ⟨type.render format n, ?_, ?_, fun h => absurd h (type.render_ne_nil format n)⟩
  · rw [hkind, render?_number hbool hcolor]
  · rw [ofText_number hkind hbool hcolor, IntType.read_render hn]
    rfl

theorem readable_color (hkind : f.kind = .scalar (.integer .argb32 .plain)) {n : ℤ}
    (hn : IntType.argb32.contains n = true) : f.Readable options (.int n) (.int n) := by
  refine ⟨renderColor n, ?_, ?_, fun h => absurd h (renderColor_ne_nil n)⟩
  · rw [hkind]
    rfl
  · unfold ofText
    rw [hkind]
    show (readColor f.name (renderColor n)).map Value.int = _
    rw [readColor_renderColor hn]
    rfl

theorem readable_bool {format : Format} (hkind : f.kind = .scalar (.integer .bool format))
    (b : Bool) : f.Readable options (.bool b) (.bool b) := by
  unfold Readable ofText
  rw [hkind]
  cases b <;> exact ⟨_, rfl, rfl, fun h => absurd h (by decide)⟩

theorem readable_integer {type : IntType} {format : Format}
    (hkind : f.kind = .scalar (.integer type format))
    (hv : (ScalarKind.integer type format).Matches v) : f.Readable options v v := by
  by_cases hbool : type = .bool
  · subst hbool
    cases v with
    | bool b => exact readable_bool hkind b
    | _ => exact hv.elim
  obtain ⟨n, rfl, hn⟩ : ∃ n, v = .int n ∧ type.contains n = true := by
    cases type with
    | bool => exact absurd rfl hbool
    | _ =>
      cases v with
      | int n => exact ⟨n, rfl, hv⟩
      | _ => exact hv.elim
  by_cases hcolor : type = .argb32 ∧ format = .plain
  · obtain ⟨rfl, rfl⟩ := hcolor
    exact readable_color hkind hn
  · exact readable_number hkind hbool (fun htype hformat => hcolor ⟨htype, hformat⟩) hn

/-- Where an empty text is read as zero, a text that is read back is only left out for zero. -/
theorem readable_of_ofText_nil {s : List Char} {out : Value} (hrender : f.kind.render? v = some s)
    (hread : f.ofText options s = .ok out) (hnil : f.ofText options [] = .ok (Value.zero f)) :
    f.Readable options v out := by
  refine ⟨s, hrender, hread, ?_⟩
  rintro rfl
  exact Except.ok.inj (hread.symm.trans hnil)

theorem readable_flags {names : List String} {width : ByteWidth}
    (hkind : f.kind = .scalar (.flags names width))
    (hflags : (ScalarKind.flags names width).WellFormed)
    (hnames : ∀ name ∈ names, IsEntry name.toList) (hv : (ScalarKind.flags names width).Matches v) :
    f.Readable options v (f.clearUndeclared v) := by
  cases v with
  | int n =>
    have hn : 0 ≤ n := (ScalarKind.holds_flags_iff.mp hv).1
    refine @readable_of_ofText_nil options f _ (renderFlags names n) _ ?_ ?_ ?_
    · rw [hkind]
      rfl
    · unfold ofText clearUndeclared
      rw [hkind]
      show (readFlags options f.name names (renderFlags names n)).map Value.int = _
      have hlength := ScalarKind.length_names_le hflags
      rw [readFlags_renderFlags hflags.1 hlength hnames options f.name hn]
      rfl
    · unfold ofText Value.zero
      rw [hkind]
      rfl
  | _ => exact hv.elim

/-! ### Sequences -/

/-- The entries of lists of numbers can stand in a comma list. -/
theorem isEntry_of_isDigitChar {s : List Char} (hne : s ≠ []) (h : ∀ c ∈ s, IsDigitChar c) :
    IsEntry s :=
  ⟨hne, fun hmem => (h ',' hmem).ne_comma rfl, trim_of_isDigitChar h⟩

theorem isEntry_numeral (n : ℕ) : IsEntry (numeral 10 n) :=
  isEntry_of_isDigitChar Nat.toDigits_ne_nil
    fun _ hc => isDigitChar_of_mem_numeral (by decide) (by decide) hc

theorem isEntry_hex (width n : ℕ) : IsEntry (['0', 'x'] ++ paddedNumeral 16 width n) := by
  have hdigits : ∀ c ∈ paddedNumeral 16 width n, IsDigitChar c :=
    fun c hc => isDigitChar_of_mem_paddedNumeral (by decide) (by decide) hc
  refine ⟨List.cons_ne_nil _ _, fun hmem => ?_, trim_hex width n⟩
  rcases List.mem_append.mp hmem with hmem | hmem
  · revert hmem
    decide
  · exact (hdigits ',' hmem).ne_comma rfl

variable {type : SeqType} {count : Option CountType} {format : Format}

theorem ofText_nil_sequence (hkind : f.kind = .sequence type count format) :
    f.ofText options [] = .ok (Value.zero f) := by
  unfold ofText Value.zero
  rw [hkind]
  cases type <;> rfl

/-- Numbers are read back from their list, if each is read back from its text. -/
theorem readable_list {α : Type} {int : IntType} {text : α → List Char} {number : α → ℤ}
    {ofNumber : ℤ → α} {value : List α → Value} (hkind : f.kind = .sequence type count format)
    (hofText : ∀ s, f.ofText options s
      = (readList f.name int s).map fun list => value (list.map ofNumber))
    (hrender : ∀ list, f.kind.render? (value list) = some (joinList (list.map text)))
    (htext : ∀ a, IsEntry (text a) ∧ readInteger? (text a) = .ok (some (number a)) ∧
      int.contains (number a) = true)
    (hback : ∀ a, ofNumber (number a) = a) (list : List α) :
    f.Readable options (value list) (value list) := by
  have hread : readList f.name int (joinList (list.map text)) = .ok (list.map number) :=
    readList_intercalate f.name fun a _ => htext a
  have hlist : (list.map number).map ofNumber = list := by
    rw [List.map_map]
    exact List.map_id'' hback list
  refine readable_of_ofText_nil (hrender list) ?_ (ofText_nil_sequence hkind)
  rw [hofText, hread]
  show Except.ok (value ((list.map number).map ofNumber)) = _
  rw [hlist]

theorem readable_byteList (hkind : f.kind = .sequence .vecU8 count format) (s : Bytes) :
    f.Readable options (.bytes s) (.bytes s) := by
  have hofText : ∀ s, f.ofText options s = (readList f.name .u8 s).map fun list =>
      Value.bytes (list.map fun v => UInt8.ofNat v.toNat) := by
    intro s
    unfold ofText
    rw [hkind]
  have hrender : ∀ s : Bytes,
      f.kind.render? (.bytes s) = some (joinList (s.map fun b => numeral 10 b.toNat)) := by
    intro s
    rw [hkind]
    rfl
  have htext : ∀ b : UInt8, IsEntry (numeral 10 b.toNat) ∧
      readInteger? (numeral 10 b.toNat) = .ok (some (b.toNat : ℤ)) ∧
        IntType.u8.contains (b.toNat : ℤ) = true := by
    intro b
    have hlt := b.toNat_lt
    refine ⟨isEntry_numeral _, readInteger?_numeral (by omega), ?_⟩
    rw [IntType.contains_iff]
    exact ⟨Int.natCast_nonneg _, by show (b.toNat : ℤ) ≤ 255; omega⟩
  exact readable_list hkind hofText hrender htext (fun b => UInt8.ofNat_toNat) s

/-- The text of 16-bit numbers is that of each, in decimal or with all hexadecimal digits. -/
theorem readable_words (hkind : f.kind = .sequence .vecU16 count format)
    (hformat : format = .plain ∨ format = .hex) (list : List UInt16) :
    f.Readable options (.words list) (.words list) := by
  have hofText : ∀ s, f.ofText options s = (readList f.name .u16 s).map fun list =>
      Value.words (list.map fun v => UInt16.ofNat v.toNat) := by
    intro s
    unfold ofText
    rw [hkind]
  have hcontains : ∀ w : UInt16, IntType.u16.contains (w.toNat : ℤ) = true := by
    intro w
    have hlt := w.toNat_lt
    rw [IntType.contains_iff]
    exact ⟨Int.natCast_nonneg _, by show (w.toNat : ℤ) ≤ 65535; omega⟩
  -- The entries differ by format; what follows from them does not.
  obtain ⟨text, hrender, htext⟩ : ∃ text : UInt16 → List Char,
      (∀ list, f.kind.render? (.words list) = some (joinList (list.map text))) ∧
        ∀ w, IsEntry (text w) ∧ readInteger? (text w) = .ok (some (w.toNat : ℤ)) := by
    rw [hkind]
    rcases hformat with rfl | rfl
    · refine ⟨fun w => numeral 10 w.toNat, fun list => rfl, fun w => ⟨isEntry_numeral _, ?_⟩⟩
      have hlt := w.toNat_lt
      exact readInteger?_numeral (by omega)
    · refine ⟨fun w => ['0', 'x'] ++ paddedNumeral 16 4 w.toNat, fun list => rfl,
        fun w => ⟨isEntry_hex _ _, ?_⟩⟩
      have hlt := w.toNat_lt
      exact (readInteger?_hex (by omega)).1
  exact readable_list hkind hofText hrender
    (fun w => ⟨(htext w).1, (htext w).2, hcontains w⟩) (fun w => UInt16.ofNat_toNat) list

theorem readable_bytes (hkind : f.kind = .sequence .bytes count format) (s : Bytes) :
    f.Readable options (.bytes s) (.bytes s) := by
  refine @readable_of_ofText_nil options f _ (Base64.encode s) _ ?_ ?_ (ofText_nil_sequence hkind)
  · rw [hkind]
    rfl
  · unfold ofText
    rw [hkind]
    simp only [Base64.decode?_encode]

theorem readable_text (hkind : f.kind = .sequence .utf8 count format) (s : String) :
    f.Readable options (.text s) (.text s) := by
  refine @readable_of_ofText_nil options f _ s.toList _ ?_ ?_ (ofText_nil_sequence hkind)
  · rw [hkind]
    rfl
  · unfold ofText
    rw [hkind]
    simp only [String.ofList_toList]

theorem readable_sequence
    (hkind : f.kind = .sequence type count format)
    (hshape : SequenceShape type count format f.minLen f.maxLen)
    (hv : (type.content? v).isSome = true) : f.Readable options v v := by
  cases type with
  | bytes =>
    cases v with
    | bytes s => exact readable_bytes hkind s
    | _ => cases hv
  | vecU8 =>
    cases v with
    | bytes s => exact readable_byteList hkind s
    | _ => cases hv
  | vecU16 =>
    cases v with
    | words list => exact readable_words hkind (hshape.plain_or_hex.imp_right And.left) list
    | _ => cases hv
  | utf8 =>
    cases v with
    | text s => exact readable_text hkind s
    | _ => cases hv

/-! ### Fields -/

/-- Every value that matches a scalar or a sequence has a text that is read back, without the bits
of flags that have no name. -/
theorem readable_of_matches (hf : f.WellFormed) (hnames : ∀ name ∈ f.flagNames, IsEntry name.toList)
    (hrecords : f.isRecords = false) (hv : f.Matches v) :
    f.Readable options v (f.clearUndeclared v) := by
  unfold Matches at hv
  unfold isRecords at hrecords
  unfold flagNames at hnames
  cases hkind : f.kind with
  | scalar kind =>
    rw [hkind] at hv hnames
    cases kind with
    | integer type format =>
      have hclear : f.clearUndeclared v = v := by
        unfold clearUndeclared
        rw [hkind]
      rw [hclear]
      exact readable_integer hkind hv
    | flags names width => exact readable_flags hkind (hf.scalar hkind).1 hnames hv
  | sequence type count format =>
    rw [hkind] at hv
    have hclear : f.clearUndeclared v = v := by
      unfold clearUndeclared
      rw [hkind]
    rw [hclear]
    exact readable_sequence hkind (hf.sequence hkind) hv
  | records recordName columns itemLen maxItems =>
    rw [hkind] at hrecords
    cases hrecords

/-! ### Numbers in the place of truth values -/

/-- The value that the text of a value stands for. The text of a number is never `true`. -/
def readBack (f : Field) (v : Value) : Value :=
  match f.kind, v with
  | .scalar (.integer .bool _), .int _ => .bool false
  | _, v => f.clearUndeclared v

theorem readBack_of_matches (hv : f.Matches v) : f.readBack v = f.clearUndeclared v := by
  unfold Matches at hv
  unfold readBack
  split
  · rename_i hkind
    rw [hkind] at hv
    exact hv.elim
  · rfl

/-- The number of a truth value is read as false. -/
theorem HoldsNumber.readable (hf : f.WellFormed) (h : f.HoldsNumber v) :
    f.Readable options v (f.readBack v) := by
  obtain ⟨format, n, hkind, rfl, hn⟩ := h
  have hformat : format = .plain := (hf.scalar hkind).1 rfl
  have htext : decimal n ≠ [] ∧ (decimal n == "true".toList) = false := by
    rcases IntType.eq_zero_or_one hn with rfl | rfl <;> decide
  subst hformat
  refine ⟨decimal n, ?_, ?_, fun hnil => absurd hnil htext.1⟩
  · simp only [hkind, FieldKind.render?, IntType.render]
  · simp only [ofText, readBack, hkind, htext.2]

/-- Every value that a scalar or a sequence can be written with has a text that is read back. -/
theorem readable_of_accepts (hf : f.WellFormed) (hnames : ∀ name ∈ f.flagNames, IsEntry name.toList)
    (hrecords : f.isRecords = false) (hv : f.Accepts v) : f.Readable options v (f.readBack v) := by
  rcases hv with hv | hnumber
  · rw [readBack_of_matches hv]
    exact readable_of_matches hf hnames hrecords hv
  · exact hnumber.readable hf

/-- Whatever the names of flags are, every value that a scalar or a sequence can be written with has
a text. -/
theorem exists_render?_of_accepts (hf : f.WellFormed) (hrecords : f.isRecords = false)
    (hv : f.Accepts v) : ∃ s, f.kind.render? v = some s := by
  by_cases hflags : ∃ names width, f.kind = .scalar (.flags names width)
  · obtain ⟨names, width, hkind⟩ := hflags
    rcases hv with hv | ⟨format, n, hbool, -, -⟩
    · unfold Matches at hv
      rw [hkind] at hv ⊢
      cases v with
      | int n => exact ⟨_, rfl⟩
      | _ => exact hv.elim
    · cases hkind.symm.trans hbool
  · have hnames : ∀ name ∈ f.flagNames, IsEntry name.toList := by
      intro name hname
      unfold flagNames at hname
      split at hname
      · rename_i names width hkind
        exact absurd ⟨names, width, hkind⟩ hflags
      · cases hname
    obtain ⟨s, hs, -⟩ := @readable_of_accepts {} f v hf hnames hrecords hv
    exact ⟨s, hs⟩

end Field

/-! ### Records -/

/-- The numbers of a record as they stand in a command. -/
def scaledRecord (columns : List Column) (record : List ℤ) : List Binary64 :=
  (columns.zip record).map fun entry => entry.1.kind.format.scaleDown entry.2

theorem readRecord_scaledRecord {columns : List Column} {record : List ℤ}
    (h : RecordMatches columns record) :
    readRecord columns (scaledRecord columns record) = .ok record := by
  unfold readRecord
  rw [mapM_eq_ok]
  induction h with
  | nil => exact .nil
  | cons hv _ ih => exact .cons (Column.scaleUp_scaleDown hv) ih

theorem length_scaledRecord {columns : List Column} {record : List ℤ}
    (h : RecordMatches columns record) : (scaledRecord columns record).length = columns.length := by
  rw [scaledRecord, List.length_map, List.length_zip, ← h.length_eq, Nat.min_self]

/-- Records are read back. -/
theorem recordsOf_scaledRecord {options : CommandOptions} {field : String} {columns : List Column}
    {records : List (List ℤ)} (h : ∀ record ∈ records, RecordMatches columns record)
    (done : List (List ℤ)) :
    recordsOf options field columns done (records.map (scaledRecord columns))
      = .ok (done.reverse ++ records) := by
  induction records generalizing done with
  | nil =>
    rw [List.append_nil]
    rfl
  | cons record records ih =>
    rw [List.forall_mem_cons] at h
    rw [List.map_cons, recordsOf, if_neg (not_not.mpr (length_scaledRecord h.1)),
      readRecord_scaledRecord h.1]
    simp only [ih h.2, List.reverse_cons, List.append_assoc, List.singleton_append]

end WireSchema
