import Mathlib
import WireSchema.Proofs.Results
import WireSchema.Proofs.Schema.Field
import WireSchema.Proofs.Wire.Scalar

/-!
# Records on the wire

An array of records is its records one after the other, and a record is its numbers one after the
other, so every record has the same length and the number of records follows from the total.

* `RecordMatches` — a number for each column, which the column can store;
* `writeColumns_eq_ok`, `readColumns_append`, `readColumns_eq_ok` — one record;
* `writeRecords_eq_ok`, `readRecords_append`, `readRecords_eq_ok` — all of them.
-/

namespace WireSchema

/-- A record has one number for each column, and each can be stored. -/
def RecordMatches (columns : List Column) (record : List Int) : Prop :=
  List.Forall₂ (fun c v => c.kind.holds v = true) columns record

/-! ### One record -/

/-- A record that matches its columns is written, in as many bytes as the columns take. -/
theorem writeColumns_of_matches {columns : List Column} {record : List Int}
    (h : RecordMatches columns record) :
    ∃ s, writeColumns columns record = .ok s ∧ s.length = itemLength columns := by
  induction h with
  | nil => exact ⟨[], rfl, rfl⟩
  | @cons c v columns record hv _ ih =>
    obtain ⟨rest, hrest, hlength⟩ := ih
    refine ⟨c.kind.width.put (c.kind.toBits v) ++ rest, ?_, ?_⟩
    · simp only [writeColumns, ScalarKind.write, hv, if_true, hrest]
    · rw [List.length_append, ByteWidth.length_put, hlength, itemLength]

/-- Only records that match their columns are written. -/
theorem matches_of_writeColumns {columns : List Column} {record : List Int} {s : Bytes}
    (hlength : record.length = columns.length) (h : writeColumns columns record = .ok s) :
    RecordMatches columns record := by
  induction columns generalizing record s with
  | nil =>
    rw [List.eq_nil_of_length_eq_zero hlength]
    exact .nil
  | cons c columns ih =>
    cases record with
    | nil => simp at hlength
    | cons v record =>
      rw [writeColumns] at h
      split at h
      · cases h
      rename_i bytes hbytes
      split at h
      · cases h
      rename_i rest hrest
      exact .cons (ScalarKind.write_eq_ok hbytes).1 (ih (by simpa using hlength) hrest)

/-- A record is read back as it was written, whatever follows it. -/
theorem readColumns_append {columns : List Column} {record : List Int} {s : Bytes}
    (hlength : record.length = columns.length) (h : writeColumns columns record = .ok s)
    (rest : Bytes) : readColumns columns (s ++ rest) = .ok (record, rest) := by
  induction columns generalizing record s with
  | nil =>
    rw [List.eq_nil_of_length_eq_zero hlength] at h ⊢
    cases h
    rfl
  | cons c columns ih =>
    cases record with
    | nil => simp at hlength
    | cons v record =>
      rw [writeColumns] at h
      split at h
      · cases h
      rename_i bytes hbytes
      split at h
      · cases h
      rename_i tail htail
      cases h
      rw [readColumns, List.append_assoc, ScalarKind.read_write_append hbytes]
      simp only [ih (by simpa using hlength) htail]

/-- A record that was read matches its columns and took the bytes of its columns. -/
theorem readColumns_eq_ok {columns : List Column} {record : List Int} {s rest : Bytes}
    (h : readColumns columns s = .ok (record, rest)) :
    RecordMatches columns record ∧ s.length = itemLength columns + rest.length := by
  induction columns generalizing record s with
  | nil =>
    cases h
    exact ⟨.nil, (Nat.zero_add _).symm⟩
  | cons c columns ih =>
    rw [readColumns] at h
    split at h
    · cases h
    rename_i v tail hv
    split at h
    · cases h
    rename_i vs tail' hvs
    cases h
    obtain ⟨hholds, part, hs, hlength⟩ := ScalarKind.read_eq_ok hv
    obtain ⟨hmatches, htail⟩ := ih hvs
    refine ⟨.cons hholds hmatches, ?_⟩
    rw [itemLength, hs, List.length_append]
    omega

/-! ### All records -/

/-- The bytes of records are the bytes of each, in order. -/
theorem writeRecords_eq_ok {field : String} {columns : List Column} {done : List Bytes}
    {records : List (List Int)} {s : Bytes}
    (h : writeRecords field columns done records = .ok s) :
    ∃ parts, s = done.reverse.flatten ++ parts.flatten ∧
      List.Forall₂ (fun record part => record.length = columns.length ∧
        writeColumns columns record = .ok part) records parts := by
  induction records generalizing done with
  | nil =>
    cases h
    exact ⟨[], by simp, .nil⟩
  | cons record records ih =>
    rw [writeRecords] at h
    split at h
    · cases h
    rename_i hlength
    split at h
    · cases h
    rename_i part hpart
    obtain ⟨parts, hs, hparts⟩ := ih h
    refine ⟨part :: parts, ?_, .cons ⟨not_not.mp hlength, hpart⟩ hparts⟩
    rw [hs, List.reverse_cons, List.flatten_append, List.flatten_singleton, List.flatten_cons,
      List.append_assoc]

/-- Records that match their columns are written, in as many bytes as their number and the columns
make. -/
theorem writeRecords_of_matches {field : String} {columns : List Column} {done : List Bytes}
    {records : List (List Int)} (h : ∀ record ∈ records, RecordMatches columns record) :
    ∃ s, writeRecords field columns done records = .ok s ∧
      s.length = done.flatten.length + records.length * itemLength columns := by
  induction records generalizing done with
  | nil =>
    refine ⟨done.reverse.flatten, rfl, ?_⟩
    rw [(List.reverse_perm done).flatten.length_eq, List.length_nil, Nat.zero_mul, Nat.add_zero]
  | cons record records ih =>
    have hrecord := h record List.mem_cons_self
    obtain ⟨part, hpart, hlength⟩ := writeColumns_of_matches hrecord
    obtain ⟨s, hs, hs'⟩ :=
      @ih (part :: done) fun r hr => h r (List.mem_cons_of_mem _ hr)
    refine ⟨s, ?_, ?_⟩
    · rw [writeRecords, if_neg (not_not.mpr hrecord.length_eq.symm), hpart]
      exact hs
    · rw [hs', List.flatten_cons, List.length_append, hlength, List.length_cons, Nat.add_mul]
      omega

/-- Records are read back as they were written, whatever follows them. -/
theorem readRecords_append {columns : List Column} {records : List (List Int)} {parts : List Bytes}
    (h : List.Forall₂ (fun record part => record.length = columns.length ∧
      writeColumns columns record = .ok part) records parts)
    (done : List (List Int)) (rest : Bytes) :
    readRecords columns done records.length (parts.flatten ++ rest)
      = .ok (done.reverse ++ records, rest) := by
  induction h generalizing done with
  | nil => rw [List.append_nil]; rfl
  | cons hpart _ ih =>
    rw [List.length_cons, List.flatten_cons, List.append_assoc, readRecords,
      readColumns_append hpart.1 hpart.2]
    simp only [ih, List.reverse_cons, List.append_assoc, List.singleton_append]

/-- Records that were read match their columns and took their number times the length of one. -/
theorem readRecords_eq_ok {columns : List Column} {done records : List (List Int)} {n : Nat}
    {s rest : Bytes} (hdone : ∀ record ∈ done, RecordMatches columns record)
    (h : readRecords columns done n s = .ok (records, rest)) :
    (∀ record ∈ records, RecordMatches columns record) ∧ records.length = done.length + n ∧
      s.length = n * itemLength columns + rest.length := by
  induction n generalizing done s with
  | zero =>
    cases h
    refine ⟨fun record hmem => hdone record (List.mem_reverse.mp hmem), List.length_reverse, ?_⟩
    rw [Nat.zero_mul, Nat.zero_add]
  | succ n ih =>
    rw [readRecords] at h
    split at h
    · cases h
    rename_i record tail hrecord
    obtain ⟨hmatches, hlength⟩ := readColumns_eq_ok hrecord
    obtain ⟨hall, hcount, htail⟩ := ih (List.forall_mem_cons.mpr ⟨hmatches, hdone⟩) h
    refine ⟨hall, ?_, ?_⟩
    · rw [hcount, List.length_cons]
      omega
    · rw [hlength, htail, Nat.add_mul, Nat.one_mul]
      omega

end WireSchema
