import Mathlib
import WireSchema.Proofs.Command.Flags
import WireSchema.Proofs.Text.Numeral
import WireSchema.Proofs.Wire.RoundTrip

/-!
# Values that are read match their fields

Whatever a command holds, a message is only read from it if every argument and every record is in
the range of its field: each reader of a number checks the number at its end, flags only have the
bits of names, and what is missing is zero. So the values of a message that was read have the
variants of its fields.

* `IntType.contains_of_read`, `contains_of_readColor`, `readFlags_lt` — numbers;
* `Field.zero_matches`, `Field.matches_of_ofText` — missing arguments and texts;
* `matches_of_recordsOf` — records;
* `Catalogue.matches_of_ofCommand` — whole messages.
-/

namespace WireSchema

open WireSchema.Text

/-! ### Numbers -/

/-- A number that is read is in the range of its type, in every format. -/
theorem IntType.contains_of_read {type : IntType} {format : Format} {field : String}
    {s : List Char} {v : ℤ} (h : type.read format field s = .ok v) : type.contains v = true := by
  cases format with
  | div d => exact (checkRange_eq_ok.mp h).2
  | _ =>
    obtain ⟨read, -, h⟩ := bind_eq_ok.mp h
    obtain ⟨number, -, h⟩ := bind_eq_ok.mp h
    exact (checkRange_eq_ok.mp h).2

/-- A color of six digits is opaque, and no color has more than 32 bits. -/
theorem readColorDigits?_lt {digits : List Char} {v : ℤ} (h : readColorDigits? digits = some v) :
    0 ≤ v ∧ v < 0x100000000 := by
  unfold readColorDigits? at h
  simp only at h
  split at h
  · obtain ⟨n, hn, rfl⟩ := Option.map_eq_some_iff.mp h
    have hopaque : 0xff000000 ||| n < 2 ^ 32 := Nat.or_lt_two_pow (by decide) (readBelow_lt hn)
    omega
  split at h
  · obtain ⟨v, hv, rfl⟩ := Option.map_eq_some_iff.mp h
    obtain ⟨n, hn, hnumber⟩ := Option.bind_eq_some_iff.mp hv
    cases hnumber
    have hlt := readBelow_lt hn
    omega
  · cases h

theorem contains_of_readColor {field : String} {s : List Char} {v : ℤ}
    (h : readColor field s = .ok v) : IntType.argb32.contains v = true := by
  have hrange : 0 ≤ v ∧ v < 0x100000000 := by
    unfold readColor at h
    split at h
    · exact readColorDigits?_lt (checkColor_eq_ok.mp h)
    · obtain ⟨read, -, h⟩ := bind_eq_ok.mp h
      have hcolor := checkColor_eq_ok.mp h
      rw [Option.filter_eq_some_iff, Bool.and_eq_true, decide_eq_true_eq,
        decide_eq_true_eq] at hcolor
      exact hcolor.2
  have hmost : v ≤ 0xffffffff := Int.le_of_lt_add_one hrange.2
  exact (IntType.contains_iff _ v).mpr ⟨hrange.1, hmost⟩

/-- Flags that are read have no bits without a name. -/
theorem readFlags_lt {options : CommandOptions} {field : String} {names : List String}
    {s : List Char} {v : ℤ} (h : readFlags options field names s = .ok v) :
    0 ≤ v ∧ v < 2 ^ names.length := by
  have hstep : ∀ entry bits bits', bits < 2 ^ names.length →
      addFlag options field names bits entry = .ok bits' → bits' < 2 ^ names.length := by
    intro entry bits bits' hbits hadd
    rcases addFlag_eq_ok hadd with ⟨i, hi, rfl⟩ | rfl
    · obtain ⟨hlt, -⟩ := List.idxOf?_eq_some_iff.mp hi
      rw [Nat.one_shiftLeft]
      exact Nat.or_lt_two_pow hbits (Nat.pow_lt_pow_right (by decide) hlt)
    · exact hbits
  rw [readFlags, bind_eq_ok] at h
  obtain ⟨bits, hfold, h⟩ := h
  cases h
  have hbits := foldlM_invariant (fun entry _ => hstep entry) (Nat.two_pow_pos _) hfold
  exact ⟨Int.natCast_nonneg _, by exact_mod_cast hbits⟩

/-- The names of flags are no more than the bits of their width. -/
theorem ScalarKind.holds_of_lt {names : List String} {width : ByteWidth}
    (hkind : (ScalarKind.flags names width).WellFormed) {v : ℤ}
    (hv : 0 ≤ v ∧ v < 2 ^ names.length) :
    (ScalarKind.flags names width).holds v = true := by
  have hle : (2 : ℤ) ^ names.length ≤ 2 ^ (8 * width.bytes) :=
    pow_le_pow_right₀ (by decide) hkind.2
  rw [holds_flags_iff, width.capacity_eq, Nat.cast_pow, Nat.cast_ofNat]
  exact ⟨hv.1, lt_of_lt_of_le hv.2 hle⟩

/-! ### Fields -/

namespace Field

variable {options : CommandOptions} {f : Field} {v : Value}

theorem zero_matches (f : Field) : f.Matches (Value.zero f) := by
  unfold Matches Value.zero
  cases f.kind with
  | scalar kind =>
    cases kind with
    | integer type format => cases type <;> trivial
    | flags names width => cases width <;> rfl
  | sequence type count format => cases type <;> rfl
  | records recordName columns itemLen maxItems =>
    intro record hrecord
    cases hrecord

theorem matches_number {type : IntType} {format : Format} {n : ℤ}
    (hkind : f.kind = .scalar (.integer type format)) (hbool : type ≠ .bool)
    (hn : type.contains n = true) : f.Matches (.int n) := by
  unfold Matches
  rw [hkind]
  cases type with
  | bool => exact absurd rfl hbool
  | _ => exact hn

/-- The text of a value is only read as a value that matches its field. -/
theorem matches_of_ofText (hf : f.WellFormed) {s : List Char} (h : f.ofText options s = .ok v) :
    f.Matches v := by
  unfold ofText at h
  split at h
  case h_1 format hkind =>
    cases h
    unfold Matches
    rw [hkind]
    trivial
  case h_2 hkind =>
    obtain ⟨n, hn, rfl⟩ := map_eq_ok.mp h
    exact matches_number hkind (by decide) (contains_of_readColor hn)
  case h_3 type format hnotBool hnotColor hkind =>
    obtain ⟨n, hn, rfl⟩ := map_eq_ok.mp h
    exact matches_number hkind hnotBool (IntType.contains_of_read hn)
  case h_4 names width hkind =>
    obtain ⟨n, hn, rfl⟩ := map_eq_ok.mp h
    unfold Matches
    rw [hkind]
    exact ScalarKind.holds_of_lt (hf.scalar hkind).1 (readFlags_lt hn)
  case h_5 count format hkind =>
    cases h
    unfold Matches
    rw [hkind]
    rfl
  case h_6 count format hkind =>
    split at h
    · cases h
      unfold Matches
      rw [hkind]
      rfl
    · cases h
  case h_7 count format hkind =>
    obtain ⟨list, -, rfl⟩ := map_eq_ok.mp h
    unfold Matches
    rw [hkind]
    rfl
  case h_8 count format hkind =>
    obtain ⟨list, -, rfl⟩ := map_eq_ok.mp h
    unfold Matches
    rw [hkind]
    rfl
  case h_9 => cases h

end Field

/-! ### Records -/

/-- The numbers of a record that is read fit its columns, one for each. -/
theorem matches_of_readRecord {columns : List Column} {record : List Binary64} {numbers : List ℤ}
    (hlength : record.length = columns.length) (h : readRecord columns record = .ok numbers) :
    RecordMatches columns numbers := by
  rw [readRecord, mapM_eq_ok] at h
  have hfirst : (columns.zip record).map Prod.fst = columns :=
    List.map_fst_zip (Nat.le_of_eq hlength.symm)
  rw [RecordMatches, ← hfirst, List.forall₂_map_left_iff]
  exact h.imp fun entry n hn => (Column.scaleUp_eq_ok.mp hn).2

theorem matches_of_recordsOf {options : CommandOptions} {field : String} {columns : List Column}
    {done records : List (List ℤ)} {input : List (List Binary64)}
    (hdone : ∀ record ∈ done, RecordMatches columns record)
    (h : recordsOf options field columns done input = .ok records) :
    ∀ record ∈ records, RecordMatches columns record := by
  induction input generalizing done with
  | nil =>
    cases h
    exact fun record hmem => hdone record (List.mem_reverse.mp hmem)
  | cons record input ih =>
    rw [recordsOf] at h
    split at h
    · split at h
      · cases h
      · exact ih hdone h
    · rename_i hlength
      split at h
      · cases h
      · rename_i numbers hnumbers
        have hmatches := matches_of_readRecord (not_not.mp hlength) hnumbers
        exact ih (List.forall_mem_cons.mpr ⟨hmatches, hdone⟩) h

/-! ### Messages -/

/-- The value of a field in a command matches the field. -/
theorem Command.matches_of_value {options : CommandOptions} {cmd : Command} {f : Field} {v : Value}
    (hf : f.WellFormed) (h : cmd.value options f = .ok v) : f.Matches v := by
  unfold value at h
  split at h
  · rename_i columns _ _ hkind
    obtain ⟨records, hrecords, rfl⟩ := map_eq_ok.mp h
    unfold Field.Matches
    rw [hkind]
    exact matches_of_recordsOf (fun _ hmem => absurd hmem List.not_mem_nil) hrecords
  · split at h
    · exact Field.matches_of_ofText hf h
    · cases h
      exact f.zero_matches

namespace Catalogue

variable {version : String} {decls : List MessageDecl} {c : Catalogue} {options : CommandOptions}
  {cmd : Command} {msg : Message}

/-- The message of a command has a type of the catalogue and one value for each field, which matches
the field. -/
theorem matches_of_ofCommand (hc : ofDecls version decls = .ok c)
    (h : c.ofCommand options cmd = .ok msg) :
    ∃ m, c.byId? msg.type = some m ∧ List.Forall₂ Field.Matches m.layout.fields msg.values := by
  unfold ofCommand at h
  split at h
  · cases h
  rename_i m hm
  split at h
  · rename_i values hvalues
    cases h
    have hmem := (byCommand?_eq_some hm).1
    have hl := wellFormed_of_mem hc hmem
    refine ⟨m, byId?_of_mem hc hmem, ?_⟩
    rw [mapM_eq_ok] at hvalues
    refine List.forall₂_iff_zip.mpr ⟨hvalues.length_eq, fun hp => ?_⟩
    have hf := hl.fields _ (List.of_mem_zip hp).1
    exact Command.matches_of_value hf (List.forall₂_zip hvalues hp)
  · cases h

theorem holdsBools_of_ofCommand (hc : ofDecls version decls = .ok c)
    (h : c.ofCommand options cmd = .ok msg) : c.HoldsBools msg := by
  obtain ⟨m, hm, hmatches⟩ := matches_of_ofCommand hc h
  exact holdsBools_of_matches hm hmatches

end Catalogue

end WireSchema
