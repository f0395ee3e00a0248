import Mathlib
import WireSchema.Proofs.Wire.Acceptance

/-!
# The messages that can be written

Which messages have a frame is told by the value model: each field has a variant of values, a range
for every number and a greatest length, and a type has bounds on the length of its payload. A
message within all of these can be written, and no other message can, except for one kind: the
numbers zero and one are written in the place of truth values, although the value model has no
numbers there.

* `Field.Conforms` — the values that the value model gives to a field;
* `Field.conforms_iff` — they are the ones that match the field and are not too long for it;
* `Field.HoldsNumber`, `Field.Accepts` — numbers in the place of truth values, and the values that
  can be written, apart from their length;
* `Field.write_iff` — a field is written with these, and with no others;
* `Catalogue.Conforms`, `Catalogue.encode_iff` — the messages that can be written.
-/

namespace WireSchema

/-! ### Values of the value model -/

/-- A number in the range of its type; flags are any combination of bits. -/
def ScalarKind.InRange (kind : ScalarKind) (n : ℤ) : Prop :=
  match kind with
  | .integer type _ => type.least ≤ n ∧ n ≤ type.greatest
  | .flags _ width => 0 ≤ n ∧ n < 2 ^ (8 * width.bytes)

theorem ScalarKind.holds_iff_inRange {kind : ScalarKind} {n : ℤ} :
    kind.holds n = true ↔ kind.InRange n := by
  cases kind with
  | integer type format => exact IntType.contains_iff type n
  | flags names width =>
    rw [holds_flags_iff, width.capacity_eq, Nat.cast_pow, Nat.cast_ofNat]
    exact Iff.rfl

/-- The values of a field in the value model: truth values for `bool`, numbers in range for the
other integers and for flags, bytes, text or words of no more than the greatest length, which
includes the count before them, and no more records than the field allows, each with a number in
range for every column. -/
inductive Field.Conforms (f : Field) : Value → Prop
  | bool {format : Format} (b : Bool) (hkind : f.kind = .scalar (.integer .bool format)) :
      Conforms f (.bool b)
  | number {kind : ScalarKind} {n : ℤ} (hkind : f.kind = .scalar kind)
      (hbool : ∀ format, kind ≠ .integer .bool format) (hrange : kind.InRange n) :
      Conforms f (.int n)
  | bytes {type : SeqType} {count : Option CountType} {format : Format} {s : Bytes}
      (hkind : f.kind = .sequence type count format) (htype : type = .bytes ∨ type = .vecU8)
      (hmost : countBytes count + s.length ≤ f.maxLen) : Conforms f (.bytes s)
  | text {count : Option CountType} {format : Format} {s : String}
      (hkind : f.kind = .sequence .utf8 count format)
      (hmost : countBytes count + s.utf8ByteSize ≤ f.maxLen) : Conforms f (.text s)
  | words {count : Option CountType} {format : Format} {list : List UInt16}
      (hkind : f.kind = .sequence .vecU16 count format)
      (hmost : countBytes count + 2 * list.length ≤ f.maxLen) : Conforms f (.words list)
  | records {recordName : String} {columns : List Column} {itemLen maxItems : ℕ}
      {list : List (List ℤ)} (hkind : f.kind = .records recordName columns itemLen maxItems)
      (hrecords : ∀ record ∈ list,
        List.Forall₂ (fun column n => column.kind.InRange n) columns record)
      (hmany : list.length ≤ maxItems) : Conforms f (.records list)

namespace Field

variable {message : String} {f : Field} {v : Value} {s : Bytes}

theorem matches_scalar_iff {kind : ScalarKind} (hbool : ∀ format, kind ≠ .integer .bool format) :
    kind.Matches v ↔ ∃ n, v = .int n ∧ kind.InRange n := by
  have hmatches : kind.Matches v ↔ ∃ n, v = .int n ∧ kind.holds n = true := by
    cases kind with
    | integer type format =>
      cases type with
      | bool => exact absurd rfl (hbool format)
      | _ => cases v <;> simp [ScalarKind.Matches]
    | flags names width => cases v <;> simp [ScalarKind.Matches]
  simp only [hmatches, ScalarKind.holds_iff_inRange]

/-- The variant of a value that conforms is the one of its field, and its numbers are in range. -/
theorem Conforms.matches (h : f.Conforms v) : f.Matches v := by
  unfold Matches
  cases h with
  | bool b hkind =>
    rw [hkind]
    trivial
  | number hkind hbool hrange =>
    rw [hkind]
    exact (matches_scalar_iff hbool).mpr ⟨_, rfl, hrange⟩
  | bytes hkind htype hmost =>
    rw [hkind]
    rcases htype with rfl | rfl <;> rfl
  | text hkind hmost =>
    rw [hkind]
    rfl
  | words hkind hmost =>
    rw [hkind]
    rfl
  | records hkind hrecords hmany =>
    rw [hkind]
    intro record hrecord
    exact (hrecords record hrecord).imp fun _ _ => ScalarKind.holds_iff_inRange.mpr

/-- A value that conforms takes no more bytes than its field may have. -/
theorem Conforms.lengthOf_le (hf : f.WellFormed) (h : f.Conforms v) : f.lengthOf v ≤ f.maxLen := by
  cases h with
  | bool b hkind => rw [lengthOf_scalar hkind, (hf.scalar hkind).2.2]
  | number hkind hbool hrange => rw [lengthOf_scalar hkind, (hf.scalar hkind).2.2]
  | bytes hkind htype hmost =>
    rcases htype with rfl | rfl <;> rwa [lengthOf_sequence hkind rfl]
  | text hkind hmost => rwa [lengthOf_sequence hkind rfl, Utf8.length_encode]
  | words hkind hmost =>
    rwa [lengthOf_sequence hkind rfl, length_bytesOfWords, Nat.mul_comm]
  | records hkind hrecords hmany =>
    rw [lengthOf_records hkind, (hf.records hkind).maxLen_eq]
    exact Nat.mul_le_mul_right _ hmany

/-- The values of the value model are those that match their field and are not too long for it. -/
theorem conforms_iff (hf : f.WellFormed) :
    f.Conforms v ↔ f.Matches v ∧ f.lengthOf v ≤ f.maxLen := by
  refine ⟨fun h => ⟨h.matches, h.lengthOf_le hf⟩, ?_⟩
  rintro ⟨hv, hmost⟩
  unfold Matches at hv
  cases hkind : f.kind with
  | scalar kind =>
    rw [hkind] at hv
    -- Truth values have a variant of their own; all other numbers share one.
    by_cases hbool : ∃ format, kind = .integer .bool format
    · obtain ⟨format, rfl⟩ := hbool
      cases v with
      | bool b => exact .bool b hkind
      | _ => exact hv.elim
    · rw [not_exists] at hbool
      obtain ⟨n, rfl, hrange⟩ := (matches_scalar_iff hbool).mp hv
      exact .number hkind hbool hrange
  | sequence type count format =>
    rw [hkind] at hv
    obtain ⟨content, hcontent⟩ := Option.isSome_iff_exists.mp hv
    rw [lengthOf_sequence hkind hcontent] at hmost
    unfold SeqType.content? at hcontent
    split at hcontent
    · cases hcontent
      exact .bytes hkind (Or.inl rfl) hmost
    · cases hcontent
      exact .bytes hkind (Or.inr rfl) hmost
    · cases hcontent
      rw [length_bytesOfWords, Nat.mul_comm] at hmost
      exact .words hkind hmost
    · cases hcontent
      rw [Utf8.length_encode] at hmost
      exact .text hkind hmost
    · cases hcontent
  | records recordName columns itemLen maxItems =>
    have hshape := hf.records hkind
    rw [hkind] at hv
    cases v with
    | records list =>
      rw [lengthOf_records hkind, hshape.maxLen_eq] at hmost
      refine .records hkind ?_ (Nat.le_of_mul_le_mul_right hmost hshape.itemLen_pos)
      intro record hrecord
      exact (hv record hrecord).imp fun _ _ => ScalarKind.holds_iff_inRange.mp
    | _ => exact hv.elim

/-! ### Values that can be written -/

/-- A number stands in the place of a truth value. It is written as one on the wire, but its text is
that of a number. -/
def HoldsNumber (f : Field) (v : Value) : Prop :=
  ∃ format n, f.kind = .scalar (.integer .bool format) ∧ v = .int n ∧ IntType.bool.contains n = true

/-- The values that a field can be written with, apart from their length: those that match it, and
numbers in the place of truth values. -/
def Accepts (f : Field) (v : Value) : Prop :=
  f.Matches v ∨ f.HoldsNumber v

theorem HoldsNumber.isRecords_eq (h : f.HoldsNumber v) : f.isRecords = false := by
  obtain ⟨format, n, hkind, -, -⟩ := h
  simp only [isRecords, hkind]

theorem Accepts.matches_of_isRecords (h : f.Accepts v) (hrecords : f.isRecords = true) :
    f.Matches v := by
  rcases h with hv | hnumber
  · exact hv
  · rw [hnumber.isRecords_eq] at hrecords
    cases hrecords

theorem Accepts.matches_of_holdsBool (h : f.Accepts v) (hbool : f.HoldsBool v) : f.Matches v := by
  rcases h with hv | ⟨format, n, hkind, rfl, -⟩
  · exact hv
  · obtain ⟨b, hb⟩ := hbool format hkind
    cases hb

theorem accepts_of_writeScalar {kind : ScalarKind} (hkind : f.kind = .scalar kind)
    (h : f.writeScalar kind v = .ok s) : f.Accepts v := by
  unfold writeScalar at h
  split at h
  · left
    simp only [Matches, hkind, ScalarKind.Matches]
  · rename_i n
    have hholds := (ScalarKind.write_eq_ok h).1
    by_cases hbool : ∃ format, kind = .integer .bool format
    · obtain ⟨format, rfl⟩ := hbool
      exact Or.inr ⟨format, n, hkind, rfl, hholds⟩
    · left
      have hvalue : kind.value n = .int n := by
        cases kind with
        | integer type format =>
          cases type with
          | bool => exact absurd ⟨format, rfl⟩ hbool
          | _ => rfl
        | flags names width => rfl
      simp only [Matches, hkind]
      rw [← hvalue]
      exact ScalarKind.value_matches hholds
  · cases h

/-- A field is only written with values that it accepts. -/
theorem accepts_of_write (h : f.write message v = .ok s) : f.Accepts v := by
  cases hkind : f.kind with
  | scalar kind =>
    rw [write_scalar hkind] at h
    exact accepts_of_writeScalar hkind (mapError_eq_ok.mp h)
  | sequence type count format =>
    rw [write_sequence hkind] at h
    obtain ⟨content, hcontent, -, -⟩ := writeSequence_eq_ok (mapError_eq_ok.mp h)
    left
    simp only [Matches, hkind, hcontent, Option.isSome_some]
  | records recordName columns itemLen maxItems =>
    obtain ⟨records, rfl, -, h⟩ := (write_records_eq_ok hkind).mp h
    left
    simp only [Matches, hkind]
    exact (length_of_writeRecords h).1

theorem HoldsNumber.write (h : f.HoldsNumber v) : ∃ s, f.write message v = .ok s := by
  obtain ⟨format, n, hkind, rfl, hn⟩ := h
  have hholds : (ScalarKind.integer .bool format).holds n = true := hn
  refine ⟨[UInt8.ofNat ((ScalarKind.integer .bool format).toBits n)], ?_⟩
  rw [write_scalar hkind, writeScalar_int, ScalarKind.write, if_pos hholds]
  rfl

/-- A field is written with the values of the value model and with numbers in the place of truth
values, and with no others. -/
theorem write_iff (hf : f.WellFormed) :
    (∃ s, f.write message v = .ok s) ↔ f.Conforms v ∨ f.HoldsNumber v := by
  rw [conforms_iff hf]
  constructor
  · rintro ⟨s, hs⟩
    exact (accepts_of_write hs).imp_left fun hv => ⟨hv, (length_of_write hf hs).2⟩
  · rintro (⟨hv, hmost⟩ | hnumber)
    · exact write_of_matches hf hv hmost
    · exact hnumber.write

end Field

/-! ### Payloads -/

/-- The bytes that the values of a message take on the wire. -/
def MessageDef.lengthOf (m : MessageDef) (values : List Value) : ℕ :=
  (List.zipWith Field.lengthOf m.layout.fields values).sum

/-- The bytes of values take as much as each of the values does. -/
theorem length_flatten_of_write {message : String} {fields : List Field} {values : List Value}
    {parts : List Bytes} (hfields : ∀ f ∈ fields, f.WellFormed)
    (h : List.Forall₂ (fun p part => p.1.write message p.2 = .ok part) (fields.zip values) parts) :
    parts.flatten.length = (List.zipWith Field.lengthOf fields values).sum := by
  induction fields generalizing values parts with
  | nil =>
    cases h
    rfl
  | cons f fields ih =>
    cases values with
    | nil =>
      cases h
      rfl
    | cons v values =>
      rw [List.zip_cons_cons, List.forall₂_cons_left_iff] at h
      obtain ⟨part, parts', hpart, hparts, rfl⟩ := h
      rw [List.forall_mem_cons] at hfields
      rw [List.flatten_cons, List.length_append, ih hfields.2 hparts,
        (Field.length_of_write hfields.1 hpart).1, List.zipWith_cons_cons, List.sum_cons]

/-- A payload can be made of values that can be written, one for each field, if its length is within
the bounds of the layout. -/
theorem MessageDef.writePayload_iff {m : MessageDef} {values : List Value}
    (hl : m.layout.WellFormed) :
    (∃ payload, m.writePayload values = .ok payload) ↔
      List.Forall₂ (fun f v => f.Conforms v ∨ f.HoldsNumber v) m.layout.fields values ∧
        m.layout.minLen ≤ m.lengthOf values ∧ m.lengthOf values ≤ m.layout.maxLen := by
  constructor
  · rintro ⟨payload, hpayload⟩
    obtain ⟨hlength, hcheck, parts, rfl, hparts⟩ := writePayload_eq_ok hpayload
    rw [checkLength_iff_bounds hl, length_flatten_of_write hl.fields hparts] at hcheck
    refine ⟨List.forall₂_iff_zip.mpr ⟨hlength.symm, fun hp => ?_⟩, hcheck⟩
    obtain ⟨part, -, hpart⟩ := exists_of_forall₂ hparts.flip hp
    exact (Field.write_iff (hl.fields _ (List.of_mem_zip hp).1)).mp ⟨part, hpart⟩
  · rintro ⟨hvalues, hbounds⟩
    obtain ⟨hlength, hall⟩ := List.forall₂_iff_zip.mp hvalues
    obtain ⟨parts, hparts⟩ := @exists_forall₂ _ _
      (fun (p : Field × Value) part => p.1.write m.name p.2 = .ok part) _ fun p hp =>
        (Field.write_iff (hl.fields _ (List.of_mem_zip hp).1)).mpr (hall hp)
    refine ⟨parts.flatten, writePayload_of_forall₂ hlength.symm hparts ?_⟩
    rw [checkLength_iff_bounds hl, length_flatten_of_write hl.fields hparts]
    exact hbounds

/-! ### Messages -/

namespace Catalogue

variable {version : String} {decls : List MessageDecl} {c : Catalogue} {msg : Message}

/-- The type of a message is in the catalogue, there is one value for each field, which suits the
field, and the length of the payload is within the bounds of the layout. -/
def Admits (c : Catalogue) (suits : Field → Value → Prop) (msg : Message) : Prop :=
  ∃ m, c.byId? msg.type = some m ∧ List.Forall₂ suits m.layout.fields msg.values ∧
    m.layout.minLen ≤ m.lengthOf msg.values ∧ m.lengthOf msg.values ≤ m.layout.maxLen

/-- The messages of the value model. -/
def Conforms (c : Catalogue) (msg : Message) : Prop :=
  c.Admits Field.Conforms msg

theorem encode_iff_writePayload :
    (∃ frame, c.encode msg = .ok frame) ↔
      ∃ m payload, c.byId? msg.type = some m ∧ m.writePayload msg.values = .ok payload := by
  constructor
  · rintro ⟨frame, hframe⟩
    obtain ⟨m, payload, hm, hpayload, -⟩ := encode_eq_ok hframe
    exact ⟨m, payload, hm, hpayload⟩
  · rintro ⟨m, payload, hm, hpayload⟩
    have hframe : c.encode msg = .ok
        (FrameHeader.encode ⟨UInt16.ofNat payload.length, msg.type, msg.userId⟩ ++ payload) := by
      simp only [encode, hm, hpayload]
    exact ⟨_, hframe⟩

theorem encode_iff_admits (hc : ofDecls version decls = .ok c) :
    (∃ frame, c.encode msg = .ok frame) ↔
      c.Admits (fun f v => f.Conforms v ∨ f.HoldsNumber v) msg := by
  rw [encode_iff_writePayload]
  refine exists_congr fun m => ?_
  constructor
  · rintro ⟨payload, hm, hpayload⟩
    have hl := wellFormed_of_mem hc (byId?_eq_some hm).1
    exact ⟨hm, (MessageDef.writePayload_iff hl).mp ⟨payload, hpayload⟩⟩
  · rintro ⟨hm, hadmits⟩
    have hl := wellFormed_of_mem hc (byId?_eq_some hm).1
    obtain ⟨payload, hpayload⟩ := (MessageDef.writePayload_iff hl).mpr hadmits
    exact ⟨payload, hm, hpayload⟩

/-- Where truth values stand in the `bool` fields, the messages that can be written are those of the
value model. -/
theorem admits_iff_conforms (hbool : c.HoldsBools msg) :
    c.Admits (fun f v => f.Conforms v ∨ f.HoldsNumber v) msg ↔ c.Conforms msg := by
  refine exists_congr fun m => and_congr_right fun hm => and_congr_left fun _ => ?_
  rw [List.forall₂_iff_zip, List.forall₂_iff_zip]
  refine and_congr_right fun _ => forall_congr' fun f => forall_congr' fun v => ?_
  refine imp_congr_right fun hp => ⟨fun h => h.resolve_right ?_, Or.inl⟩
  rintro ⟨format, n, hkind, rfl, -⟩
  obtain ⟨b, hb⟩ := hbool m hm _ hp format hkind
  cases hb

/-- A message can be written exactly if it is one of the value model, or one with the number zero
or one in place of a truth value; where all `bool` fields hold truth values, exactly if it is one of
the value model. -/
theorem encode_iff (hc : ofDecls version decls = .ok c) :
    ((∃ frame, c.encode msg = .ok frame) ↔
        c.Admits (fun f v => f.Conforms v ∨ f.HoldsNumber v) msg) ∧
      (c.HoldsBools msg → ((∃ frame, c.encode msg = .ok frame) ↔ c.Conforms msg)) := by
  refine ⟨encode_iff_admits hc, fun hbool => ?_⟩
  rw [encode_iff_admits hc, admits_iff_conforms hbool]

theorem encode_iff_note :
    (((∃ frame, noteCatalogue.encode ⟨7, 1, [.int 1, .int (-300), .text "é"]⟩ = .ok frame) ↔
        noteCatalogue.Admits (fun f v => f.Conforms v ∨ f.HoldsNumber v)
          ⟨7, 1, [.int 1, .int (-300), .text "é"]⟩) ∧
      ∃ frame, noteCatalogue.encode ⟨7, 1, [.int 1, .int (-300), .text "é"]⟩ = .ok frame) ∧
    noteCatalogue.HoldsBools ⟨7, 1, [.bool true, .int (-300), .text "é"]⟩ ∧
      ((∃ frame, noteCatalogue.encode ⟨7, 1, [.bool true, .int (-300), .text "é"]⟩ = .ok frame) ↔
        noteCatalogue.Conforms ⟨7, 1, [.bool true, .int (-300), .text "é"]⟩) ∧
      noteCatalogue.Conforms ⟨7, 1, [.bool true, .int (-300), .text "é"]⟩ := by
  have hbool : noteCatalogue.HoldsBools ⟨7, 1, [.bool true, .int (-300), .text "é"]⟩ := by
    intro m hm
    cases hm
    intro p hp format hkind
    simp only [List.zip_cons_cons, List.zip_nil_left, List.mem_cons, List.not_mem_nil,
      or_false] at hp
    rcases hp with rfl | rfl | rfl
    · exact ⟨true, rfl⟩
    · cases hkind
    · cases hkind
  have hvalues := (encode_iff ofDecls_noteDecls).2 hbool
  exact ⟨⟨(encode_iff ofDecls_noteDecls).1, _, rfl⟩, hbool, hvalues, hvalues.mp ⟨_, rfl⟩⟩

/-- The number one in the place of a truth value is written, although the value model has only truth
values there. -/
theorem nonconforming_written :
    ¬∀ (version : String) (decls : List MessageDecl) (c : Catalogue) (msg : Message),
      ofDecls version decls = .ok c → ((∃ frame, c.encode msg = .ok frame) ↔ c.Conforms msg) := by
  intro h
  have hwrite : noteCatalogue.encode ⟨7, 1, [.int 1, .int (-300), .text "é"]⟩
      = .ok [0, 5, 1, 7, 1, 0xfe, 0xd4, 0xc3, 0xa9] := by decide
  obtain ⟨m, hm, hvalues, -⟩ := (h "1" noteDecls noteCatalogue _ ofDecls_noteDecls).mp ⟨_, hwrite⟩
  cases hm
  have hfirst : (Field.ofScalar "on" (.integer .bool .plain)).Conforms (.int 1) :=
    (List.forall₂_cons.mp hvalues).1
  cases hfirst with
  | number hkind hbool hrange =>
    cases hkind
    exact hbool _ rfl

end Catalogue

end WireSchema
