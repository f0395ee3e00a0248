import Mathlib
import WireSchema.Proofs.Wire.Acceptance

/-!
# Bytes that are written as they were read

Two kinds of bytes are changed by reading: malformed text, and the bytes of truth values other than
zero and one. Where neither occurs, writing a value gives the bytes that it was read from. The frame
of a message is its fields alone if no field but the last can vary in length, because the length of
the payload then fixes the length of the last one.

* `Field.boolBytes` — the bytes of truth values, of a field or in the records of one;
* `ScalarKind.write_of_read`, `writeColumns_of_read`, `readRecords_parts` — numbers and records;
* `Field.write_of_read` — the value of a field is written as the bytes that it was read from;
* `readFields_of_fixed` — a payload of fixed fields and one variable field has no other bytes;
* `Catalogue.encode_of_decode` — so that its frame is written as it was read.
-/

namespace WireSchema

/-! ### Bytes of truth values -/

/-- The byte of a truth value at the front of `s`, if this kind of number is one. -/
def ScalarKind.boolBytes (kind : ScalarKind) (s : Bytes) : Bytes :=
  match kind with
  | .integer .bool _ => s.take 1
  | _ => []

/-- The bytes of truth values in a record. -/
def columnsBoolBytes : List Column → Bytes → Bytes
  | [], _ => []
  | c :: columns, s =>
    c.kind.boolBytes s ++ columnsBoolBytes columns (s.drop c.kind.width.bytes)

/-- The bytes of truth values in so many records. -/
def recordsBoolBytes (columns : List Column) : Nat → Bytes → Bytes
  | 0, _ => []
  | n + 1, s =>
    columnsBoolBytes columns s ++ recordsBoolBytes columns n (s.drop (itemLength columns))

/-- The bytes of truth values among the bytes of a field. -/
def Field.boolBytes (f : Field) (part : Bytes) : Bytes :=
  match f.kind with
  | .scalar kind => kind.boolBytes part
  | .sequence .. => []
  | .records _ columns itemLen _ => recordsBoolBytes columns (part.length / itemLen) part

/-- Bytes that are zero or one. -/
def AreBits (s : Bytes) : Prop :=
  ∀ b ∈ s, b = 0 ∨ b = 1

theorem areBits_append {s t : Bytes} : AreBits (s ++ t) ↔ AreBits s ∧ AreBits t :=
  List.forall_mem_append

/-! ### Numbers -/

namespace ScalarKind

/-- The number that bits stand for has these bits, unless it is a truth value of more than one. -/
theorem toBits_ofBits {kind : ScalarKind} {n : Nat} (h : n < kind.width.capacity)
    (hbool : ∀ format, kind = .integer .bool format → n ≤ 1) : kind.toBits (kind.ofBits n) = n := by
  cases kind with
  | integer type format =>
    cases type with
    | bool =>
      have hn := hbool format rfl
      interval_cases n <;> rfl
    | _ =>
      simp only [IntType.isSigned, IntType.width, ByteWidth.capacity, ofBits, toBits, width,
        if_false, true_and, false_and, Bool.false_eq_true] at h ⊢
      omega
  | flags names w =>
    have hn : n < w.capacity := h
    show ((n : ℤ) % (w.capacity : ℤ)).toNat = n
    rw [← Int.natCast_mod, Int.toNat_natCast, Nat.mod_eq_of_lt hn]

/-- Only the bytes of a number itself matter to its truth value. -/
theorem boolBytes_append {kind : ScalarKind} {part : Bytes} (h : part.length = kind.width.bytes)
    (rest : Bytes) : kind.boolBytes (part ++ rest) = kind.boolBytes part := by
  unfold boolBytes
  split
  · have hone : 1 ≤ part.length := Nat.le_of_eq h.symm
    rw [List.take_append_of_le_length hone]
  · rfl

/-- A number is written as the bytes that it was read from. -/
theorem write_of_read {kind : ScalarKind} {v : Int} {s rest : Bytes}
    (h : kind.read s = .ok (v, rest)) :
    ∃ part, s = part ++ rest ∧ part.length = kind.width.bytes ∧ kind.holds v = true ∧
      (AreBits (kind.boolBytes part) → ∀ name, kind.write name v = .ok part) := by
  have hholds := (read_eq_ok h).1
  unfold read at h
  split at h
  · rename_i n rest' hget
    cases h
    obtain ⟨hlt, hs⟩ := ByteWidth.get?_eq_some hget
    refine ⟨kind.width.put n, hs, ByteWidth.length_put _ _, hholds, fun hbits name => ?_⟩
    rw [write, if_pos hholds, toBits_ofBits hlt]
    rintro format rfl
    -- The one byte of a truth value is its number.
    have hsmall : n < 256 := hlt
    have hn : (UInt8.ofNat n).toNat = n := by
      rw [UInt8.toNat_ofNat']
      exact Nat.mod_eq_of_lt hsmall
    rcases hbits (UInt8.ofNat n) List.mem_cons_self with hzero | hone
    · rw [← hn, hzero]
      decide
    · rw [← hn, hone]
      decide
  · cases h

/-- The value of a number is written as the number is. -/
theorem writeScalar_value {kind : ScalarKind} {v : Int} (hholds : kind.holds v = true) (f : Field) :
    f.writeScalar kind (kind.value v) = kind.write f.name v := by
  cases kind with
  | integer type format =>
    cases type with
    | bool =>
      rcases IntType.eq_zero_or_one hholds with rfl | rfl <;> rfl
    | _ => rfl
  | flags names width => rfl

end ScalarKind

/-! ### Records -/

/-- A record is written as the bytes that it was read from. -/
theorem writeColumns_of_read {columns : List Column} {record : List Int} {s rest : Bytes}
    (h : readColumns columns s = .ok (record, rest))
    (hbits : AreBits (columnsBoolBytes columns s)) :
    ∃ part, writeColumns columns record = .ok part ∧ s = part ++ rest := by
  induction columns generalizing record s with
  | nil =>
    cases h
    exact ⟨[], rfl, rfl⟩
  | cons c columns ih =>
    rw [readColumns] at h
    split at h
    · cases h
    rename_i v tail hv
    split at h
    · cases h
    rename_i vs tail' hvs
    cases h
    rw [columnsBoolBytes, areBits_append] at hbits
    obtain ⟨part, rfl, hlength, -, hwrite⟩ := ScalarKind.write_of_read hv
    rw [ScalarKind.boolBytes_append hlength, ← hlength, List.drop_left] at hbits
    obtain ⟨part', hwrite', rfl⟩ := ih hvs hbits.2
    refine ⟨part ++ part', ?_, (List.append_assoc ..).symm⟩
    rw [writeColumns, hwrite hbits.1]
    simp only [hwrite']

/-- Records that are read are written one by one as the bytes that they were read from. -/
theorem readRecords_parts {columns : List Column} {done records : List (List Int)} {n : Nat}
    {s rest : Bytes} (h : readRecords columns done n s = .ok (records, rest))
    (hbits : AreBits (recordsBoolBytes columns n s)) :
    ∃ new parts, records = done.reverse ++ new ∧ s = parts.flatten ++ rest ∧
      List.Forall₂ (fun record part => record.length = columns.length ∧
        writeColumns columns record = .ok part) new parts := by
  induction n generalizing done s with
  | zero =>
    cases h
    exact ⟨[], [], (List.append_nil _).symm, rfl, .nil⟩
  | succ n ih =>
    rw [readRecords] at h
    split at h
    · cases h
    rename_i record tail hrecord
    rw [recordsBoolBytes, areBits_append] at hbits
    obtain ⟨hmatches, hlength⟩ := readColumns_eq_ok hrecord
    obtain ⟨part, hwrite, rfl⟩ := writeColumns_of_read hrecord hbits.1
    have hpart : part.length = itemLength columns := by
      rw [List.length_append] at hlength
      omega
    rw [← hpart, List.drop_left] at hbits
    obtain ⟨new, parts, hrecords, rfl, hparts⟩ := ih h hbits.2
    refine ⟨record :: new, part :: parts, ?_, ?_, .cons ⟨hmatches.length_eq.symm, hwrite⟩ hparts⟩
    · rw [hrecords, List.reverse_cons, List.append_assoc, List.singleton_append]
    · rw [List.flatten_cons, List.append_assoc]

/-- Records whose bytes are given one by one are written as those bytes. -/
theorem writeRecords_of_forall₂ {field : String} {columns : List Column} {done : List Bytes}
    {records : List (List Int)} {parts : List Bytes}
    (h : List.Forall₂ (fun record part => record.length = columns.length ∧
      writeColumns columns record = .ok part) records parts) :
    writeRecords field columns done records = .ok (done.reverse.flatten ++ parts.flatten) := by
  induction h generalizing done with
  | nil => rw [writeRecords, List.flatten_nil, List.append_nil]
  | @cons record part records parts hpart _ ih =>
    rw [writeRecords, if_neg (not_not.mpr hpart.1), hpart.2]
    show writeRecords field columns (part :: done) records = _
    rw [ih, List.reverse_cons, List.flatten_append, List.flatten_singleton, List.flatten_cons,
      List.append_assoc]

/-! ### Fields -/

namespace Field

variable {message : String} {f : Field} {v : Value} {s rest : Bytes}

/-- The value of a field is written as the bytes that it was read from, if these are no more than
the field may have, its text is well formed and its truth values are zero or one. -/
theorem write_of_read (hf : f.WellFormed) (h : f.read message s = .ok (v, rest)) :
    ∃ part, s = part ++ rest ∧ (part.length ≤ f.maxLen → f.HoldsText part →
      AreBits (f.boolBytes part) → f.write message v = .ok part) := by
  unfold boolBytes
  cases hkind : f.kind with
  | scalar kind =>
    simp only [read, hkind] at h
    split at h
    · rename_i n rest' hread
      cases h
      obtain ⟨part, rfl, -, hholds, hwrite⟩ := ScalarKind.write_of_read hread
      refine ⟨part, rfl, fun _ _ hbits => ?_⟩
      rw [write_scalar hkind, ScalarKind.writeScalar_value hholds, hwrite hbits]
      rfl
    · cases h
  | sequence type count format =>
    obtain ⟨content, rfl, rfl, hwhole, -⟩ := read_sequence_eq_ok hkind h
    refine ⟨_, rfl, fun hmost htext _ => ?_⟩
    rw [List.length_append, length_countPrefix] at hmost
    have hcontent : type = .utf8 → Utf8.WellFormed content := by
      rintro rfl
      have hdrop := htext count format hkind
      rwa [← length_countPrefix .utf8 count content, List.drop_left] at hdrop
    rw [write_sequence hkind,
      writeSequence_of_content? (SeqType.content?_value hwhole hcontent) (by omega)]
    rfl
  | records recordName columns itemLen maxItems =>
    have hshape := hf.records hkind
    obtain ⟨rfl, records, rfl, -, hlength⟩ := read_records_eq_ok hkind hshape h
    refine ⟨s, (List.append_nil s).symm, fun hmost _ hbits => ?_⟩
    rw [hshape.maxLen_eq, hlength] at hmost
    simp only [read, hkind] at h
    split at h
    · split at h
      · rename_i records' rest' hread
        cases h
        obtain ⟨new, parts, hrecords, hs, hparts⟩ := readRecords_parts hread hbits
        refine (write_records_eq_ok hkind).mpr
          ⟨_, rfl, Nat.le_of_mul_le_mul_right hmost hshape.itemLen_pos, ?_⟩
        rw [hrecords, List.reverse_nil, List.nil_append, writeRecords_of_forall₂ hparts, hs,
          List.append_nil]
        rfl
      · cases h
    · cases h

/-- A number: it always takes the bytes of its width. -/
def IsScalar (f : Field) : Prop :=
  ∃ kind, f.kind = .scalar kind

/-- A number is read from as many bytes as its field can have. -/
theorem IsScalar.length_of_read (hscalar : f.IsScalar) (hf : f.WellFormed)
    (h : f.read message s = .ok (v, rest)) : s.length = f.maxLen + rest.length := by
  obtain ⟨kind, hkind⟩ := hscalar
  obtain ⟨n, part, -, -, rfl, hlength⟩ := read_scalar_eq_ok hkind h
  rw [List.length_append, hlength, (hf.scalar hkind).2.2]

/-- A last field is a number or takes all that is left. -/
theorem Placed.isScalar_or_rest_eq_nil {prevMin prevMax : Nat}
    (hplaced : f.Placed true prevMin prevMax) (hf : f.WellFormed)
    (h : f.read message s = .ok (v, rest)) : f.IsScalar ∨ rest = [] := by
  cases hkind : f.kind with
  | scalar kind => exact Or.inl ⟨kind, hkind⟩
  | sequence type count format =>
    obtain ⟨content, -, -, -, -, hrest⟩ := read_sequence_eq_ok hkind h
    exact Or.inr (hrest ((hplaced.sequence hkind).1.mpr rfl))
  | records recordName columns itemLen maxItems =>
    exact Or.inr (read_records_eq_ok hkind (hf.records hkind) h).1

end Field

/-! ### Payloads -/

/-- The fields of a payload, each with the bytes that it is read from. -/
theorem fieldParts_cons {message : String} {f : Field} {fields : List Field} {v : Value}
    {part rest : Bytes} (h : f.read message (part ++ rest) = .ok (v, rest)) :
    fieldParts message (f :: fields) (part ++ rest)
      = (f, part) :: fieldParts message fields rest := by
  rw [fieldParts, h]
  simp only [Field.taken_append]

/-- Values are written as the bytes that they were read from, and what no field used follows
these. -/
theorem write_of_readFields {message : String} {fields : List Field} {values : List Value}
    {s rest : Bytes} (hfields : ∀ f ∈ fields, f.WellFormed)
    (h : readFields message fields s = .ok (values, rest))
    (hmost : ∀ p ∈ fieldParts message fields s, p.2.length ≤ p.1.maxLen)
    (htext : ∀ p ∈ fieldParts message fields s, p.1.HoldsText p.2)
    (hbits : ∀ p ∈ fieldParts message fields s, AreBits (p.1.boolBytes p.2)) :
    ∃ parts, s = parts.flatten ++ rest ∧
      List.Forall₂ (fun p part => p.1.write message p.2 = .ok part) (fields.zip values) parts := by
  induction fields generalizing s values with
  | nil =>
    cases h
    exact ⟨[], rfl, .nil⟩
  | cons f fields ih =>
    rw [List.forall_mem_cons] at hfields
    obtain ⟨v, vs, tail, rfl, hv, hvs⟩ := readFields_cons_eq_ok h
    obtain ⟨part, rfl, hwrite⟩ := Field.write_of_read hfields.1 hv
    rw [fieldParts_cons hv, List.forall_mem_cons] at hmost htext hbits
    obtain ⟨parts, rfl, hparts⟩ := ih hfields.2 hvs hmost.2 htext.2 hbits.2
    refine ⟨part :: parts, ?_, ?_⟩
    · rw [List.flatten_cons, List.append_assoc]
    · rw [List.zip_cons_cons]
      exact .cons (hwrite hmost.1 htext.1 hbits.1) hparts

/-- Where only the last field is no number, a payload that is not too long is used up, and no field
is read from more bytes than it may have. -/
theorem readFields_of_fixed {message : String} {fields : List Field} {values : List Value}
    {s rest : Bytes} {prevMin prevMax : Nat} (hne : fields ≠ [])
    (hfixed : ∀ f ∈ fields.dropLast, f.IsScalar) (hplaced : PlacedFrom prevMin prevMax fields)
    (hfields : ∀ f ∈ fields, f.WellFormed) (h : readFields message fields s = .ok (values, rest))
    (hmost : s.length ≤ maxTotal fields) :
    rest = [] ∧ ∀ p ∈ fieldParts message fields s, p.2.length ≤ p.1.maxLen := by
  -- Each number takes its share of the bound on the payload exactly, so that what is left of the
  -- bound is that of the last field.
  induction fields generalizing s values prevMin prevMax with
  | nil => exact absurd rfl hne
  | cons f fields ih =>
    rw [List.forall_mem_cons] at hfields
    obtain ⟨v, vs, tail, rfl, hv, hvs⟩ := readFields_cons_eq_ok h
    obtain ⟨part, rfl, -⟩ := Field.read_eq_ok hfields.1 hv
    rw [fieldParts_cons hv, List.forall_mem_cons]
    rw [List.length_append, maxTotal_cons] at hmost
    cases fields with
    | nil =>
      cases hvs
      have hpart : part.length + rest.length ≤ f.maxLen := hmost
      refine ⟨?_, Nat.le_of_add_right_le hpart, fun p hp => absurd hp List.not_mem_nil⟩
      rcases hplaced.1.isScalar_or_rest_eq_nil hfields.1 hv with hscalar | hrest
      · have hlength := hscalar.length_of_read hfields.1 hv
        rw [List.length_append] at hlength
        exact List.eq_nil_of_length_eq_zero (by omega)
      · exact hrest
    | cons g fields =>
      rw [List.dropLast_cons_cons, List.forall_mem_cons] at hfixed
      have hlength := hfixed.1.length_of_read hfields.1 hv
      rw [List.length_append] at hlength
      obtain ⟨hrest, hparts⟩ :=
        ih (List.cons_ne_nil _ _) hfixed.2 hplaced.2 hfields.2 hvs (by omega)
      have hpart : part.length ≤ f.maxLen := by omega
      exact ⟨hrest, hpart, hparts⟩

/-! ### Frames -/

namespace Catalogue

variable {version : String} {decls : List MessageDecl} {c : Catalogue} {s : Bytes} {msg : Message}
  {m : MessageDef}

/-- The frame of a message in which only the last field can vary in length is written as it was
read, if its text is well formed, its truth values are zero or one, and nothing follows it. -/
theorem encode_of_decode (hc : ofDecls version decls = .ok c) (h : c.decode s = .ok msg)
    (hm : c.byId? msg.type = some m) (hne : m.layout.fields ≠ [])
    (hfixed : ∀ f ∈ m.layout.fields.dropLast, f.IsScalar) {frame : FrameHeader × Bytes}
    (hframe : splitFrame? s = some (frame, [])) (htext : ∀ p ∈ c.parts s, p.1.HoldsText p.2)
    (hbits : ∀ p ∈ c.parts s, AreBits (p.1.boolBytes p.2)) : c.encode msg = .ok s := by
  obtain ⟨payload, rest, m', tail, hsplit, -, hm', hcheck, hread, hparts⟩ := readFields_of_decode h
  cases hm.symm.trans hm'
  cases hframe.symm.trans hsplit
  have hl := wellFormed_of_mem hc (byId?_eq_some hm).1
  have hlength := hcheck hne
  have hmax : payload.length ≤ maxTotal m.layout.fields := by
    have hbounds := ((MessageDef.checkLength_iff_bounds hl).mp hlength).2
    rw [hl.maxLen_eq] at hbounds
    exact Nat.le_trans hbounds (Nat.min_le_left _ _)
  obtain ⟨rfl, hmost⟩ := readFields_of_fixed hne hfixed hl.placed hl.fields hread hmax
  rw [hparts] at htext hbits
  obtain ⟨out, hpayload, hout⟩ := write_of_readFields hl.fields hread hmost htext hbits
  rw [List.append_nil] at hpayload
  have hcount : msg.values.length = m.layout.fields.length := by
    obtain ⟨hmap, hforall, -⟩ := readFields_eq_ok hl.fields hread
    have hfields := congrArg List.length hmap
    rw [List.length_map] at hfields
    rw [← hforall.length_eq, hfields]
  have hwrite : m.writePayload msg.values = .ok payload := by
    rw [hpayload] at hlength ⊢
    exact MessageDef.writePayload_of_forall₂ hcount hout hlength
  simp only [encode, hm, hwrite]
  rw [(splitFrame?_eq_some hframe).1, List.append_nil, frameBytes]

/-- A truth value, and records with a truth value each. -/
def dotsDecls : List MessageDecl :=
  [{ name := "Dots", id := 4
     body := .fields [.short "on bool",
       .long "dots struct" none
         { recordName := some "Dot", fields := some [.short "x i8", .short "down bool"] }] }]

/-- The catalogue of `dotsDecls`. -/
def dotsCatalogue : Catalogue :=
  ⟨"1", [⟨"Dots", "dots", 4, "", none,
    ⟨[Field.ofScalar "on" (.integer .bool .plain),
      ⟨"dots", 0, 65534, .records "Dot"
        [⟨"x", .integer .i8 .plain⟩, ⟨"down", .integer .bool .plain⟩] 2 32767⟩], 1, 65535⟩⟩]⟩

theorem ofDecls_dotsDecls : ofDecls "1" dotsDecls = .ok dotsCatalogue := by
  cbv

theorem encode_of_decode_dots :
    dotsCatalogue.encode ⟨9, 4, [.bool true, .records [[-2, 1], [3, 0]]]⟩
      = .ok [0, 5, 4, 9, 1, 0xfe, 1, 3, 0] := by
  have hread : dotsCatalogue.decode [0, 5, 4, 9, 1, 0xfe, 1, 3, 0]
      = .ok ⟨9, 4, [.bool true, .records [[-2, 1], [3, 0]]]⟩ := by cbv
  have hparts : dotsCatalogue.parts [0, 5, 4, 9, 1, 0xfe, 1, 3, 0]
      = [(Field.ofScalar "on" (.integer .bool .plain), [1]),
        (⟨"dots", 0, 65534, .records "Dot"
          [⟨"x", .integer .i8 .plain⟩, ⟨"down", .integer .bool .plain⟩] 2 32767⟩,
          [0xfe, 1, 3, 0])] := by decide
  refine encode_of_decode ofDecls_dotsDecls hread rfl (List.cons_ne_nil _ _) ?_
    (show splitFrame? _ = some ((⟨5, 4, 9⟩, [1, 0xfe, 1, 3, 0]), []) from rfl) ?_ ?_
  · intro f hf
    rw [List.mem_singleton.mp hf]
    exact ⟨_, rfl⟩
  · intro p hp count format hkind
    rw [hparts] at hp
    rcases List.mem_cons.mp hp with rfl | hp
    · cases hkind
    rw [List.mem_singleton.mp hp] at hkind
    cases hkind
  · intro p hp
    have hbits : AreBits [1] ∧ AreBits [1, 0] := by simp [AreBits]
    rw [hparts] at hp
    rcases List.mem_cons.mp hp with rfl | hp
    · exact hbits.1
    rw [List.mem_singleton.mp hp]
    exact hbits.2

end Catalogue

end WireSchema
