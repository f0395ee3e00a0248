import Mathlib
import WireSchema.Proofs.Schema.Layout
import WireSchema.Proofs.Utf8
import WireSchema.Proofs.Wire.Records

/-!
# Fields on the wire

The value of a field is read back as it was written. In the other direction, what is read matches
its field, and the bytes it was read from tell whether it can be written again.

* `Field.Matches` — a value of the variant of a field, with every number in range;
* `Field.lengthOf` — the bytes that a value takes on the wire;
* `Field.read_write_append` — reading after writing;
* `Field.write_eq_ok_iff` — the values that match are written exactly if they fit the greatest
  length of their field;
* `Field.read_eq_ok` — what is read.
-/

namespace WireSchema

/-! ### Values of a field -/

/-- A value of the variant of a scalar, in its range. -/
def ScalarKind.Matches (kind : ScalarKind) (v : Value) : Prop :=
  match kind, v with
  | .integer .bool _, .bool _ => True
  | .integer .bool _, _ => False
  | kind, .int v => kind.holds v = true
  | _, _ => False

/-- A value of the variant of a field, with every number in the range of its type. -/
def Field.Matches (f : Field) (v : Value) : Prop :=
  match f.kind, v with
  | .scalar kind, v => kind.Matches v
  | .sequence type _ _, v => (type.content? v).isSome = true
  | .records _ columns _ _, .records list => ∀ record ∈ list, RecordMatches columns record
  | .records .., _ => False

/-- A `bool` field holds a truth value. -/
def Field.HoldsBool (f : Field) (v : Value) : Prop :=
  ∀ format, f.kind = .scalar (.integer .bool format) → ∃ b, v = .bool b

theorem Field.Matches.holdsBool {f : Field} {v : Value} (h : f.Matches v) : f.HoldsBool v := by
  intro format hkind
  unfold Matches at h
  rw [hkind] at h
  cases v with
  | bool b => exact ⟨b, rfl⟩
  | _ => exact h.elim

/-- The bytes that a value takes on the wire, with the count before them if there is one. -/
def Field.lengthOf (f : Field) (v : Value) : Nat :=
  match f.kind, v with
  | .scalar kind, _ => kind.width.bytes
  | .sequence type count _, v => countBytes count + ((type.content? v).getD []).length
  | .records _ _ itemLen _, .records list => list.length * itemLen
  | .records .., _ => 0

theorem Field.contentMax_eq (f : Field) (count : Option CountType) :
    f.contentMax count = f.maxLen - countBytes count := by
  unfold contentMax countBytes
  cases count <;> rfl

/-! ### Scalars -/

namespace ScalarKind

/-- The number that is stored for a truth value. -/
theorem read_bool_append {format : Format} (b : Bool) (rest : Bytes) :
    (integer .bool format).read ([if b then 1 else 0] ++ rest)
      = .ok (if b then 1 else 0, rest) := by
  cases b <;> rfl

theorem value_matches {kind : ScalarKind} {v : Int} (h : kind.holds v = true) :
    kind.Matches (kind.value v) := by
  cases kind with
  | integer type format => cases type <;> first | exact h | trivial
  | flags names width => exact h

end ScalarKind

theorem Field.writeScalar_append {f : Field} {kind : ScalarKind} {v : Value} {s : Bytes}
    (hbool : ∀ format, kind = .integer .bool format → ∃ b, v = .bool b)
    (h : f.writeScalar kind v = .ok s) (rest : Bytes) :
    ∃ n, kind.read (s ++ rest) = .ok (n, rest) ∧ kind.value n = v := by
  unfold writeScalar at h
  split at h
  · rename_i b
    cases h
    refine ⟨_, ScalarKind.read_bool_append b rest, ?_⟩
    cases b <;> rfl
  · rename_i n
    refine ⟨n, ScalarKind.read_write_append h rest, ?_⟩
    cases kind with
    | integer type format =>
      cases type with
      | bool =>
        obtain ⟨b, hb⟩ := hbool format rfl
        cases hb
      | _ => rfl
    | flags names width => rfl
  · cases h

theorem Field.writeScalar_int (f : Field) (kind : ScalarKind) (v : Int) :
    f.writeScalar kind (.int v) = kind.write f.name v := by
  cases kind with
  | integer type format => cases type <;> rfl
  | flags names width => rfl

/-- A scalar value that matches its kind is written in the bytes of its width. -/
theorem Field.writeScalar_of_matches {f : Field} {kind : ScalarKind} {v : Value}
    (h : kind.Matches v) : ∃ s, f.writeScalar kind v = .ok s ∧ s.length = kind.width.bytes := by
  have hint : ∀ n, kind.holds n = true →
      ∃ s, kind.write f.name n = .ok s ∧ s.length = kind.width.bytes := by
    intro n hn
    refine ⟨kind.width.put (kind.toBits n), ?_, ByteWidth.length_put _ _⟩
    rw [ScalarKind.write, if_pos hn]
  unfold ScalarKind.Matches at h
  split at h
  · exact ⟨_, rfl, rfl⟩
  · exact h.elim
  · rename_i n hkind
    rw [writeScalar_int]
    exact hint n h
  · exact h.elim

theorem Field.length_of_writeScalar {f : Field} {kind : ScalarKind} {v : Value} {s : Bytes}
    (h : f.writeScalar kind v = .ok s) : s.length = kind.width.bytes := by
  unfold writeScalar at h
  split at h
  · cases h
    rfl
  · rw [(ScalarKind.write_eq_ok h).2, ByteWidth.length_put]
  · cases h

/-! ### Sequences -/

namespace SeqType

/-- The value of the content of a value is that value. -/
theorem value_of_content? {type : SeqType} {v : Value} {content : Bytes}
    (h : type.content? v = some content) : type.value content = v := by
  unfold content? at h
  split at h
  · cases h
    rfl
  · cases h
    rfl
  · cases h
    rw [value, wordsOfBytes_bytesOfWords]
  · cases h
    rw [value, Utf8.decodeLossy_encode, String.ofList_toList]
  · cases h

/-- The content of a value is a number of whole elements. -/
theorem elementSize_dvd {type : SeqType} {v : Value} {content : Bytes}
    (h : type.content? v = some content) : type.elementSize ∣ content.length := by
  unfold content? at h
  split at h
  · exact Nat.one_dvd _
  · exact Nat.one_dvd _
  · cases h
    rw [length_bytesOfWords]
    exact Nat.dvd_mul_left _ _
  · exact Nat.one_dvd _
  · cases h

/-- Text is the only content that reading can change, where it is malformed. -/
theorem content?_value {type : SeqType} {content : Bytes}
    (hwhole : type.elementSize ∣ content.length)
    (htext : type = .utf8 → Utf8.WellFormed content) :
    type.content? (type.value content) = some content := by
  cases type with
  | bytes => rfl
  | vecU8 => rfl
  | vecU16 =>
    show some ((wordsOfBytes content).flatMap bytesOfWord) = some content
    rw [bytesOfWords_wordsOfBytes hwhole]
  | utf8 =>
    show some (Utf8.encode (String.ofList (Utf8.decodeLossy content)).toList) = some content
    rw [String.toList_ofList, (htext rfl).encode_decodeLossy]

theorem content?_value_isSome (type : SeqType) (content : Bytes) :
    (type.content? (type.value content)).isSome = true := by
  cases type <;> rfl

end SeqType

/-- The count before a content, if there is one. -/
def countPrefix (type : SeqType) (count : Option CountType) (content : Bytes) : Bytes :=
  match count with
  | some t => t.width.put (content.length / type.elementSize)
  | none => []

theorem length_countPrefix (type : SeqType) (count : Option CountType) (content : Bytes) :
    (countPrefix type count content).length = countBytes count := by
  cases count with
  | none => rfl
  | some t => exact ByteWidth.length_put _ _

/-- A count is read back with the content behind it, whatever follows. -/
theorem readCounted_append {tooLong : WireFault} {type : SeqType} {t : CountType} {most : Nat}
    {content : Bytes} (hwhole : type.elementSize ∣ content.length)
    (hcount : content.length / type.elementSize < t.width.capacity)
    (hmost : content.length ≤ most) (rest : Bytes) :
    readCounted tooLong type t most
        (t.width.put (content.length / type.elementSize) ++ content ++ rest)
      = .ok (content, rest) := by
  rw [readCounted, List.append_assoc, ByteWidth.get?_put_append, Nat.mod_eq_of_lt hcount]
  simp only [Nat.div_mul_cancel hwhole, if_neg (Nat.not_lt.mpr hmost), takeExactly?_eq,
    List.length_append, Nat.le_add_right, if_true, List.take_left, List.drop_left]

/-- What stands behind a count is as many elements as it tells, and no more than the field
allows. -/
theorem readCounted_eq_ok {tooLong : WireFault} {type : SeqType} {t : CountType} {most : Nat}
    {s content rest : Bytes} (h : readCounted tooLong type t most s = .ok (content, rest)) :
    content.length ≤ most ∧
      ∃ n, content.length = n * type.elementSize ∧ s = t.width.put n ++ content ++ rest := by
  unfold readCounted at h
  split at h
  · cases h
  rename_i n tail hget
  split at h
  · cases h
  rename_i hmost
  rw [takeExactly?_eq] at h
  split at h
  · rename_i content' rest' htake
    cases h
    split at htake
    · rename_i hlength
      cases htake
      have hcontent : (tail.take (n * type.elementSize)).length = n * type.elementSize := by
        rw [List.length_take]
        omega
      refine ⟨by omega, n, hcontent, ?_⟩
      rw [(ByteWidth.get?_eq_some hget).2, List.append_assoc, List.take_append_drop]
    · cases htake
  · cases h

/-- What writing a sequence gives: the content of the value, with the count before it if there is
one. -/
theorem Field.writeSequence_eq_ok {message : String} {f : Field} {type : SeqType}
    {count : Option CountType} {v : Value} {s : Bytes}
    (h : f.writeSequence message type count v = .ok s) :
    ∃ content, type.content? v = some content ∧ content.length ≤ f.maxLen - countBytes count ∧
      s = countPrefix type count content ++ content := by
  unfold writeSequence at h
  split at h
  · cases h
  rename_i content hcontent
  split at h
  · cases h
  rename_i hmost
  rw [contentMax_eq] at hmost
  refine ⟨content, hcontent, Nat.not_lt.mp hmost, ?_⟩
  cases count with
  | none => cases h; rfl
  | some t => cases h; rfl

/-- A sequence whose content fits is written. -/
theorem Field.writeSequence_of_content? {message : String} {f : Field} {type : SeqType}
    {count : Option CountType} {v : Value} {content : Bytes}
    (hcontent : type.content? v = some content)
    (hmost : content.length ≤ f.maxLen - countBytes count) :
    f.writeSequence message type count v = .ok (countPrefix type count content ++ content) := by
  unfold writeSequence
  rw [hcontent]
  simp only [contentMax_eq, if_neg (Nat.not_lt.mpr hmost)]
  cases count <;> rfl

/-! ### Writing, kind by kind -/

namespace Field

variable {message : String} {f : Field} {v : Value} {s rest : Bytes}

theorem write_scalar {kind : ScalarKind} (hkind : f.kind = .scalar kind) (v : Value) :
    f.write message v = (f.writeScalar kind v).mapError fun e => (e, 0) := by
  unfold write
  rw [hkind]

theorem write_sequence {type : SeqType} {count : Option CountType} {format : Format}
    (hkind : f.kind = .sequence type count format) (v : Value) :
    f.write message v = (f.writeSequence message type count v).mapError fun e => (e, 0) := by
  unfold write
  rw [hkind]

/-- Only records are written to an array of records, and not more than it holds. -/
theorem write_records_eq_ok {recordName : String} {columns : List Column} {itemLen maxItems : Nat}
    (hkind : f.kind = .records recordName columns itemLen maxItems) :
    f.write message v = .ok s ↔ ∃ records, v = .records records ∧ records.length ≤ maxItems ∧
      writeRecords f.name columns [] records = .ok s := by
  unfold write
  rw [hkind]
  cases v with
  | records records =>
    by_cases hmany : maxItems < records.length
    · simp only [if_pos hmany, reduceCtorEq, Value.records.injEq, false_iff, not_exists, not_and]
      rintro records' rfl hle
      omega
    · simp only [if_neg hmany, Value.records.injEq, exists_eq_left', Nat.not_lt.mp hmany, true_and]
  | _ =>
    simp only [reduceCtorEq, false_and, exists_false]

theorem lengthOf_scalar {kind : ScalarKind} (hkind : f.kind = .scalar kind) (v : Value) :
    f.lengthOf v = kind.width.bytes := by
  unfold lengthOf
  rw [hkind]

theorem lengthOf_sequence {type : SeqType} {count : Option CountType} {format : Format}
    (hkind : f.kind = .sequence type count format) {content : Bytes}
    (hcontent : type.content? v = some content) :
    f.lengthOf v = countBytes count + content.length := by
  unfold lengthOf
  rw [hkind]
  simp only [hcontent, Option.getD_some]

theorem lengthOf_records {recordName : String} {columns : List Column} {itemLen maxItems : Nat}
    (hkind : f.kind = .records recordName columns itemLen maxItems) (records : List (List Int)) :
    f.lengthOf (.records records) = records.length * itemLen := by
  unfold lengthOf
  rw [hkind]

/-! ### Reading after writing -/

/-- The content of a sequence is read back, whatever follows it if it has a count. -/
theorem read_writeSequence_append {type : SeqType} {count : Option CountType} {format : Format}
    (hkind : f.kind = .sequence type count format)
    (hshape : SequenceShape type count format f.minLen f.maxLen)
    (h : f.writeSequence message type count v = .ok s) (hrest : count ≠ none ∨ rest = []) :
    f.read message (s ++ rest) = .ok (v, rest) := by
  obtain ⟨content, hcontent, hmost, rfl⟩ := writeSequence_eq_ok h
  have hwhole := SeqType.elementSize_dvd hcontent
  cases count with
  | none =>
    obtain rfl := hrest.resolve_left (not_not.mpr rfl)
    have hmod : content.length % type.elementSize = 0 := Nat.mod_eq_zero_of_dvd hwhole
    simp only [read, hkind, countPrefix, List.nil_append, List.append_nil, hmod, if_true,
      SeqType.value_of_content? hcontent]
  | some t =>
    have hcount : content.length / type.elementSize < t.width.capacity := by
      have hle : content.length / type.elementSize ≤ t.maxCount :=
        Nat.le_trans (Nat.div_le_div_right hmost) (hshape.expressible t rfl)
      have hpos := t.width.capacity_pos
      unfold CountType.maxCount at hle
      omega
    rw [← contentMax_eq f (some t)] at hmost
    simp only [read, hkind, countPrefix, readCounted_append hwhole hcount hmost rest,
      SeqType.value_of_content? hcontent]

/-- Records that were written have the length that their number tells. -/
theorem length_of_writeRecords {field : String} {columns : List Column}
    {records : List (List Int)} {s : Bytes} (h : writeRecords field columns [] records = .ok s) :
    (∀ record ∈ records, RecordMatches columns record) ∧
      s.length = records.length * itemLength columns := by
  obtain ⟨parts, -, hparts⟩ := writeRecords_eq_ok h
  have hmatches : ∀ record ∈ records, RecordMatches columns record := by
    intro record hmem
    obtain ⟨part, -, hlength, hpart⟩ := exists_of_forall₂ hparts.flip hmem
    exact matches_of_writeColumns hlength hpart
  obtain ⟨s', hs', hlength⟩ := @writeRecords_of_matches field columns [] records hmatches
  rw [h] at hs'
  cases hs'
  refine ⟨hmatches, ?_⟩
  rw [hlength, List.flatten_nil, List.length_nil, Nat.zero_add]

/-- Records are read back to the end of the payload. -/
theorem read_writeRecords {recordName : String} {columns : List Column} {itemLen maxItems : Nat}
    {records : List (List Int)} (hkind : f.kind = .records recordName columns itemLen maxItems)
    (hshape : RecordsShape columns itemLen maxItems f.minLen f.maxLen)
    (h : writeRecords f.name columns [] records = .ok s) :
    f.read message s = .ok (.records records, []) := by
  have hlength : s.length = records.length * itemLen := by
    rw [hshape.itemLen_eq]
    exact (length_of_writeRecords h).2
  obtain ⟨parts, hs, hparts⟩ := writeRecords_eq_ok h
  have hread := readRecords_append hparts [] []
  rw [List.append_nil] at hread
  simp only [read, hkind, hlength, Nat.mul_mod_left, if_true,
    Nat.mul_div_cancel _ hshape.itemLen_pos]
  rw [hs, List.reverse_nil, List.flatten_nil, List.nil_append, hread]
  rfl

/-- A value is read back as it was written. What follows it does not matter for a field that shows
where it ends; the others take what is left, so that nothing may follow. -/
theorem read_write_append (hf : f.WellFormed) (hbool : f.HoldsBool v)
    (h : f.write message v = .ok s) (hrest : f.IsDelimited ∨ rest = []) :
    f.read message (s ++ rest) = .ok (v, rest) := by
  unfold IsDelimited at hrest
  cases hkind : f.kind with
  | scalar kind =>
    rw [write_scalar hkind] at h
    obtain ⟨n, hread, hv⟩ := writeScalar_append
      (fun format hk => hbool format (hkind.trans (congrArg _ hk))) (mapError_eq_ok.mp h) rest
    simp only [read, hkind, hread, hv]
  | sequence type count format =>
    rw [hkind] at hrest
    rw [write_sequence hkind] at h
    exact read_writeSequence_append hkind (hf.sequence hkind) (mapError_eq_ok.mp h) hrest
  | records recordName columns itemLen maxItems =>
    rw [hkind] at hrest
    obtain rfl := hrest.resolve_left id
    obtain ⟨records, rfl, -, h⟩ := (write_records_eq_ok hkind).mp h
    rw [List.append_nil]
    exact read_writeRecords hkind (hf.records hkind) h

/-! ### The length of a value -/

/-- A value that is written takes the bytes that its length tells, at most the greatest length of
its field. -/
theorem length_of_write (hf : f.WellFormed) (h : f.write message v = .ok s) :
    s.length = f.lengthOf v ∧ f.lengthOf v ≤ f.maxLen := by
  cases hkind : f.kind with
  | scalar kind =>
    rw [write_scalar hkind] at h
    rw [lengthOf_scalar hkind]
    exact ⟨length_of_writeScalar (mapError_eq_ok.mp h), (hf.scalar hkind).2.2.symm.le⟩
  | sequence type count format =>
    have hshape := hf.sequence hkind
    rw [write_sequence hkind] at h
    obtain ⟨content, hcontent, hmost, rfl⟩ := writeSequence_eq_ok (mapError_eq_ok.mp h)
    have hcount := hshape.count_le
    have hle := hshape.min_le_max
    rw [lengthOf_sequence hkind hcontent, List.length_append, length_countPrefix]
    exact ⟨rfl, by omega⟩
  | records recordName columns itemLen maxItems =>
    have hshape := hf.records hkind
    obtain ⟨records, rfl, hmany, h⟩ := (write_records_eq_ok hkind).mp h
    rw [lengthOf_records hkind, hshape.maxLen_eq]
    refine ⟨?_, Nat.mul_le_mul_right _ hmany⟩
    rw [hshape.itemLen_eq]
    exact (length_of_writeRecords h).2

/-- A value that matches its field is written if it fits the greatest length. -/
theorem write_of_matches (hf : f.WellFormed) (hv : f.Matches v) (hmost : f.lengthOf v ≤ f.maxLen) :
    ∃ s, f.write message v = .ok s := by
  unfold Matches at hv
  cases hkind : f.kind with
  | scalar kind =>
    rw [hkind] at hv
    obtain ⟨s, hs, -⟩ := @writeScalar_of_matches f kind v hv
    exact ⟨s, (write_scalar hkind v).trans (mapError_eq_ok.mpr hs)⟩
  | sequence type count format =>
    rw [hkind] at hv
    obtain ⟨content, hcontent⟩ := Option.isSome_iff_exists.mp hv
    rw [lengthOf_sequence hkind hcontent] at hmost
    have hs := @writeSequence_of_content? message f _ count _ _ hcontent (by omega)
    exact ⟨_, (write_sequence hkind v).trans (mapError_eq_ok.mpr hs)⟩
  | records recordName columns itemLen maxItems =>
    have hshape := hf.records hkind
    rw [hkind] at hv
    cases v with
    | records records =>
      rw [lengthOf_records hkind, hshape.maxLen_eq] at hmost
      have hmany : records.length ≤ maxItems := Nat.le_of_mul_le_mul_right hmost hshape.itemLen_pos
      obtain ⟨s, hs, -⟩ := @writeRecords_of_matches f.name columns [] records hv
      exact ⟨s, (write_records_eq_ok hkind).mpr ⟨records, rfl, hmany, hs⟩⟩
    | _ => exact hv.elim

/-- Of the values that match a field, those are written that fit its greatest length. -/
theorem write_eq_ok_iff (hf : f.WellFormed) (hv : f.Matches v) :
    (∃ s, f.write message v = .ok s) ↔ f.lengthOf v ≤ f.maxLen :=
  ⟨fun ⟨_, hs⟩ => (length_of_write hf hs).2, write_of_matches hf hv⟩

/-! ### What is read -/

/-- The bytes that reading takes from the front of `s` when it leaves `rest`. -/
def taken (s rest : Bytes) : Bytes :=
  s.take (s.length - rest.length)

theorem taken_append (part rest : Bytes) : taken (part ++ rest) rest = part := by
  rw [taken, List.length_append, Nat.add_sub_cancel, List.take_left]

/-- The text in the bytes of a `utf8` field is well formed. -/
def HoldsText (f : Field) (part : Bytes) : Prop :=
  ∀ count format, f.kind = .sequence .utf8 count format →
    Utf8.WellFormed (part.drop (countBytes count))

/-- A scalar is read from the bytes of its width. -/
theorem read_scalar_eq_ok {kind : ScalarKind} (hkind : f.kind = .scalar kind)
    (h : f.read message s = .ok (v, rest)) :
    ∃ n part, v = kind.value n ∧ kind.holds n = true ∧ s = part ++ rest ∧
      part.length = kind.width.bytes := by
  simp only [read, hkind] at h
  split at h
  · rename_i n rest' hread
    cases h
    obtain ⟨hholds, part, hs, hlength⟩ := ScalarKind.read_eq_ok hread
    exact ⟨n, part, rfl, hholds, hs, hlength⟩
  · cases h

/-- A sequence is read from whole elements: those behind its count, as many as the field may have,
or all that are left. -/
theorem read_sequence_eq_ok {type : SeqType} {count : Option CountType} {format : Format}
    (hkind : f.kind = .sequence type count format) (h : f.read message s = .ok (v, rest)) :
    ∃ content, s = countPrefix type count content ++ content ++ rest ∧ v = type.value content ∧
      type.elementSize ∣ content.length ∧
      (count ≠ none → content.length ≤ f.contentMax count) ∧ (count = none → rest = []) := by
  cases count with
  | some t =>
    simp only [read, hkind] at h
    split at h
    · rename_i content rest' hread
      cases h
      obtain ⟨hmost, n, hcount, hs⟩ := readCounted_eq_ok hread
      refine ⟨content, ?_, rfl, hcount ▸ Nat.dvd_mul_left _ _, fun _ => hmost, fun hnone => ?_⟩
      · rw [countPrefix, hcount, Nat.mul_div_cancel _ type.elementSize_pos]
        exact hs
      · cases hnone
    · cases h
  | none =>
    simp only [read, hkind] at h
    split at h
    · rename_i hmod
      cases h
      exact ⟨s, (List.append_nil s).symm, rfl, Nat.dvd_of_mod_eq_zero hmod,
        fun hne => absurd rfl hne, fun _ => rfl⟩
    · cases h

/-- Records are read from all bytes that are left. -/
theorem read_records_eq_ok {recordName : String} {columns : List Column} {itemLen maxItems : Nat}
    (hkind : f.kind = .records recordName columns itemLen maxItems)
    (hshape : RecordsShape columns itemLen maxItems f.minLen f.maxLen)
    (h : f.read message s = .ok (v, rest)) :
    rest = [] ∧ ∃ records, v = .records records ∧
      (∀ record ∈ records, RecordMatches columns record) ∧
      s.length = records.length * itemLen := by
  simp only [read, hkind] at h
  split at h
  · rename_i hmod
    split at h
    · rename_i records rest' hread
      cases h
      obtain ⟨hmatches, hcount, hlength⟩ :=
        readRecords_eq_ok (fun record hmem => absurd hmem List.not_mem_nil) hread
      rw [List.length_nil, Nat.zero_add] at hcount
      have hwhole := Nat.div_mul_cancel (Nat.dvd_of_mod_eq_zero hmod)
      rw [← hshape.itemLen_eq, hwhole] at hlength
      refine ⟨List.eq_nil_of_length_eq_zero (by omega), records, rfl, hmatches, ?_⟩
      rw [hcount, hwhole]
    · cases h
  · cases h

/-- Reading takes bytes from the front and leaves the rest, and the value matches the field. -/
theorem read_eq_ok (hf : f.WellFormed) (h : f.read message s = .ok (v, rest)) :
    ∃ part, s = part ++ rest ∧ f.Matches v ∧
      (f.HoldsText part → part.length = f.lengthOf v) ∧
      (f.IsDelimited → part.length ≤ f.maxLen) := by
  unfold Matches IsDelimited
  cases hkind : f.kind with
  | scalar kind =>
    obtain ⟨n, part, rfl, hholds, rfl, hlength⟩ := read_scalar_eq_ok hkind h
    refine ⟨part, rfl, ScalarKind.value_matches hholds, ?_, ?_⟩
    · rw [lengthOf_scalar hkind]
      exact fun _ => hlength
    · rw [hlength, (hf.scalar hkind).2.2]
      exact fun _ => Nat.le_refl _
  | sequence type count format =>
    have hshape := hf.sequence hkind
    obtain ⟨content, rfl, rfl, hwhole, hmost, -⟩ := read_sequence_eq_ok hkind h
    refine ⟨_, rfl, SeqType.content?_value_isSome _ _, ?_, ?_⟩
    · intro htext
      have hcontent : type = .utf8 → Utf8.WellFormed content := by
        rintro rfl
        have hdrop := htext count format hkind
        rwa [← length_countPrefix .utf8 count content, List.drop_left] at hdrop
      rw [lengthOf_sequence hkind (SeqType.content?_value hwhole hcontent), List.length_append,
        length_countPrefix]
    · intro hcount
      have hle := hmost hcount
      have hmin := hshape.count_le
      have hmax := hshape.min_le_max
      rw [contentMax_eq] at hle
      rw [List.length_append, length_countPrefix]
      omega
  | records recordName columns itemLen maxItems =>
    obtain ⟨rfl, records, rfl, hmatches, hlength⟩ :=
      read_records_eq_ok hkind (hf.records hkind) h
    refine ⟨s, (List.append_nil s).symm, hmatches, ?_, fun hfalse => hfalse.elim⟩
    rw [lengthOf_records hkind]
    exact fun _ => hlength

end Field

end WireSchema
