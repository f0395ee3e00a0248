import Mathlib
import WireSchema.Proofs.Schema.Totals
import WireSchema.Proofs.Wire.Canonical
import WireSchema.Proofs.Wire.Conformance

/-!
# Message types that have frames

A message type has frames if the bounds on its payload leave any length. The greatest length of a
layout is never beyond the end of a payload, but the least length can be: sequences and records are
checked against the room that is left, numbers are not. Where the numbers do have room, there is a
message of the least length, and its frame is written and read; elsewhere no frame is.

* `Layout.NumbersFit`, `Layout.min_le_max_iff` — room for all numbers, and what it does to the
  bounds;
* `Field.exists_least` — a value of the least length;
* `Layout.usable_iff` — which message types have frames;
* `Layout.unusable_accepted` — a layout without frames is accepted.
-/

namespace WireSchema

/-! ### Bounds that leave a length -/

/-- Every number has room behind the least lengths of the fields before it. -/
def Layout.NumbersFit (l : Layout) : Prop :=
  ∀ before f after, l.fields = before ++ f :: after → f.IsScalar →
    minTotal before + f.minLen ≤ maxPayload

theorem Layout.min_le_max_iff {l : Layout} (hl : l.WellFormed) :
    l.minLen ≤ l.maxLen ↔ l.NumbersFit := by
  have hle := minTotal_le_maxTotal hl.fields
  have hbounds : l.minLen ≤ l.maxLen ↔ minTotal l.fields ≤ maxPayload := by
    rw [hl.minLen_eq, hl.maxLen_eq]
    omega
  rw [hbounds]
  constructor
  · intro hfits before f after hfields _
    rw [hfields, minTotal_append, minTotal_cons] at hfits
    omega
  · intro hnumbers
    by_contra hbeyond
    obtain ⟨before, f, after, kind, hfields, hkind, hf⟩ := exists_beyond hl.fields hl.placed
      (Nat.zero_le _) (by omega)
    have hfits := hnumbers before f after hfields ⟨kind, hkind⟩
    omega

/-! ### Values of the least length -/

theorem ScalarKind.holds_zero (kind : ScalarKind) : kind.holds 0 = true := by
  cases kind with
  | integer type format => cases type <;> rfl
  | flags names width => cases width <;> rfl

namespace SeqType

/-- A value with so many elements. -/
theorem exists_content? (type : SeqType) (n : ℕ) :
    ∃ v content, type.content? v = some content ∧ content.length = n * type.elementSize := by
  cases type with
  | bytes => exact ⟨.bytes (List.replicate n 0), _, rfl, by simp [elementSize]⟩
  | vecU8 => exact ⟨.bytes (List.replicate n 0), _, rfl, by simp [elementSize]⟩
  | vecU16 =>
    refine ⟨.words (List.replicate n 0), _, rfl, ?_⟩
    rw [length_bytesOfWords, List.length_replicate]
    rfl
  | utf8 =>
    refine ⟨.text (String.ofList (List.replicate n 'a')), _, rfl, ?_⟩
    rw [String.toList_ofList, Utf8.encode, List.length_flatMap, List.map_replicate,
      List.sum_replicate]
    rfl

end SeqType

namespace Field

variable {d : FieldDecl} {isLast : Bool} {prevMin prevMax : ℕ} {f : Field}

/-- The least length of a declared sequence is that of a number of elements. -/
theorem exists_least_elements (h : ofDecl d isLast prevMin prevMax = .ok f) {type : SeqType}
    {count : Option CountType} {format : Format} (hkind : f.kind = .sequence type count format) :
    ∃ n, f.minLen = countBytes count + n * type.elementSize := by
  obtain ⟨name, keyword, -, ⟨kind, -, rfl⟩ | ⟨type, h⟩ | h⟩ := ofDecl_eq_ok h
  · cases hkind
  · obtain ⟨count, format, most, -, -, -, -, rfl⟩ := FieldDecl.sequenceField_eq_ok h
    cases hkind
    exact ⟨_, rfl⟩
  · obtain ⟨-, -, recordName, subfields, columns, -, -, rfl, -⟩ := FieldDecl.recordsField_eq_ok h
    cases hkind

/-- There is a value of the least length of a declared field. -/
theorem exists_least (h : ofDecl d isLast prevMin prevMax = .ok f) :
    ∃ v, f.Matches v ∧ f.lengthOf v = f.minLen := by
  have hf := wellFormed_of_ofDecl h
  cases hkind : f.kind with
  | scalar kind =>
    refine ⟨kind.value 0, ?_, by rw [lengthOf_scalar hkind, (hf.scalar hkind).2.1]⟩
    simp only [Matches, hkind]
    exact ScalarKind.value_matches kind.holds_zero
  | sequence type count format =>
    obtain ⟨n, hn⟩ := exists_least_elements h hkind
    obtain ⟨v, content, hcontent, hlength⟩ := type.exists_content? n
    refine ⟨v, ?_, ?_⟩
    · simp only [Matches, hkind, hcontent, Option.isSome_some]
    · rw [lengthOf_sequence hkind hcontent, hlength, hn]
  | records recordName columns itemLen maxItems =>
    refine ⟨.records [], ?_, ?_⟩
    · simp [Matches, hkind]
    · rw [lengthOf_records hkind, (hf.records hkind).minLen_eq, List.length_nil, Nat.zero_mul]

end Field

/-- Values of the least lengths take the least total. -/
theorem sum_lengthOf_least {fields : List Field} {values : List Value}
    (h : List.Forall₂ (fun f v => f.Matches v ∧ f.lengthOf v = f.minLen) fields values) :
    (List.zipWith Field.lengthOf fields values).sum = minTotal fields := by
  induction h with
  | nil => rfl
  | cons hv _ ih => rw [List.zipWith_cons_cons, List.sum_cons, hv.2, ih, minTotal_cons]

/-- Where the bounds leave a length, values of the least length have a payload. -/
theorem MessageDef.exists_payload {m : MessageDef} {owner : String} {decls : List FieldDecl}
    (hlayout : Layout.ofDecls owner decls = .ok m.layout)
    (hle : m.layout.minLen ≤ m.layout.maxLen) :
    ∃ values payload, List.Forall₂ Field.Matches m.layout.fields values ∧
      m.writePayload values = .ok payload := by
  have hl := Layout.wellFormed_of_ofDecls hlayout
  obtain ⟨values, hvalues⟩ := exists_forall₂ fun f hf => by
    obtain ⟨d, isLast, prevMin, prevMax, hdecl⟩ := Layout.ofDecl_of_mem hlayout hf
    exact Field.exists_least hdecl
  have hlength : m.lengthOf values = m.layout.minLen :=
    (sum_lengthOf_least hvalues).trans hl.minLen_eq.symm
  have hconforms : List.Forall₂ (fun f v => f.Conforms v ∨ f.HoldsNumber v)
      m.layout.fields values := by
    refine List.forall₂_iff_zip.mpr ⟨hvalues.length_eq, fun {f v} hp => Or.inl ?_⟩
    have hf := hl.fields f (List.of_mem_zip hp).1
    obtain ⟨hv, hleast⟩ := List.forall₂_zip hvalues hp
    exact (Field.conforms_iff hf).mpr ⟨hv, hleast.trans_le hf.min_le_max⟩
  obtain ⟨payload, hpayload⟩ :=
    (writePayload_iff hl).mpr ⟨hconforms, hlength.ge, hlength.trans_le hle⟩
  exact ⟨values, payload, hvalues.imp fun _ _ hv => hv.1, hpayload⟩

/-! ### Frames -/

namespace Layout

variable {owner : String} {decls : List FieldDecl} {l : Layout} {version : String}
  {messages : List MessageDecl} {c : Catalogue} {m : MessageDef}

/-- Where the bounds leave a length, a message is written, and read from its frame. -/
theorem exists_frame (hm : c.byId? m.id = some m) (hlayout : ofDecls owner decls = .ok m.layout)
    (hle : m.layout.minLen ≤ m.layout.maxLen) :
    ∃ msg frame, msg.type = m.id ∧ c.encode msg = .ok frame ∧ c.decode frame = .ok msg := by
  obtain ⟨values, payload, hvalues, hpayload⟩ := MessageDef.exists_payload hlayout hle
  have hencode : ∃ frame, c.encode ⟨0, m.id, values⟩ = .ok frame :=
    Catalogue.encode_iff_writePayload.mpr ⟨m, payload, hm, hpayload⟩
  obtain ⟨frame, hframe⟩ := hencode
  refine ⟨_, frame, rfl, hframe, ?_⟩
  obtain ⟨m', payload', hm', hpayload', hsplit⟩ := Catalogue.splitFrame?_of_encode hframe
  cases hm.symm.trans hm'
  have hread := MessageDef.readPayload_of_writePayload (wellFormed_of_ofDecls hlayout)
    (fun p hp => (List.forall₂_zip hvalues hp).holdsBool) hpayload'
  simp only [Catalogue.decode, hsplit, Catalogue.decodeFrame, hm, hread]

/-- A frame that is written has a length that the bounds leave. -/
theorem min_le_max_of_encode {msg : Message} {frame : Bytes} (hl : m.layout.WellFormed)
    (hm : c.byId? m.id = some m) (htype : msg.type = m.id) (h : c.encode msg = .ok frame) :
    m.layout.minLen ≤ m.layout.maxLen := by
  obtain ⟨m', payload, hm', hpayload, -⟩ := Catalogue.encode_eq_ok h
  rw [htype] at hm'
  cases hm.symm.trans hm'
  obtain ⟨-, hmin, hmax⟩ := (MessageDef.writePayload_iff hl).mp ⟨payload, hpayload⟩
  exact hmin.trans hmax

/-- A frame that is read has a length that the bounds leave. -/
theorem min_le_max_of_decode {s : Bytes} {msg : Message} (hl : m.layout.WellFormed)
    (hm : c.byId? m.id = some m) (htype : msg.type = m.id) (h : c.decode s = .ok msg) :
    m.layout.minLen ≤ m.layout.maxLen := by
  obtain ⟨payload, rest, m', tail, -, -, hm', hcheck, -, -⟩ := Catalogue.readFields_of_decode h
  rw [htype] at hm'
  cases hm.symm.trans hm'
  by_cases hnone : m.layout.fields = []
  · rw [hl.minLen_eq, hnone]
    exact Nat.zero_le _
  · obtain ⟨hmin, hmax⟩ := (MessageDef.checkLength_iff_bounds hl).mp (hcheck hnone)
    exact hmin.trans hmax

/-- The greatest length of a layout is never beyond the end of a payload. The least length is within
it just if all numbers have room behind the fields before them, and just then do the message types
with this layout have frames that are written, and frames that are read. -/
theorem usable_iff (h : ofDecls owner decls = .ok l) :
    l.maxLen ≤ maxPayload ∧ (l.minLen ≤ l.maxLen ↔ l.NumbersFit) ∧
      ∀ version messages c, Catalogue.ofDecls version messages = .ok c →
        ∀ m ∈ c.messages, m.layout = l →
          ((∃ msg frame, msg.type = m.id ∧ c.encode msg = .ok frame) ↔ l.minLen ≤ l.maxLen) ∧
            ((∃ msg s, msg.type = m.id ∧ c.decode s = .ok msg) ↔ l.minLen ≤ l.maxLen) := by
  have hl := wellFormed_of_ofDecls h
  refine ⟨hl.maxLen_eq.trans_le (Nat.min_le_right _ _), min_le_max_iff hl, ?_⟩
  rintro version messages c hc m hm rfl
  have hid := Catalogue.byId?_of_mem hc hm
  constructor
  · constructor
    · rintro ⟨msg, frame, htype, hframe⟩
      exact min_le_max_of_encode hl hid htype hframe
    · intro hle
      obtain ⟨msg, frame, htype, hframe, -⟩ := exists_frame hid h hle
      exact ⟨msg, frame, htype, hframe⟩
  · constructor
    · rintro ⟨msg, s, htype, hmsg⟩
      exact min_le_max_of_decode hl hid htype hmsg
    · intro hle
      obtain ⟨msg, frame, htype, -, hmsg⟩ := exists_frame hid h hle
      exact ⟨msg, frame, htype, hmsg⟩

/-- At least 65533 bytes with their count, and a number behind them. -/
def brimDecls : List FieldDecl :=
  [.long "a bytes" none { minLen := some 65533, countType := some "u16" }, .short "b u8"]

/-- The layout of `brimDecls`. -/
def brimLayout : Layout :=
  ⟨[⟨"a", 65535, 65535, .sequence .bytes (some .u16) .plain⟩,
    Field.ofScalar "b" (.integer .u8 .plain)], 65536, 65535⟩

theorem ofDecls_brimDecls : ofDecls "Brim" brimDecls = .ok brimLayout := by
  cbv

/-- The catalogue with this layout. -/
def brimCatalogue : Catalogue :=
  ⟨"1", [⟨"Brim", "brim", 1, "", none, brimLayout⟩]⟩

theorem usable_iff_brim :
    Catalogue.ofDecls "1" [{ name := "Brim", id := 1, body := .fields brimDecls }]
        = .ok brimCatalogue ∧
      ¬brimLayout.NumbersFit ∧
      (¬∃ msg frame, msg.type = 1 ∧ brimCatalogue.encode msg = .ok frame) ∧
      ¬∃ msg s, msg.type = 1 ∧ brimCatalogue.decode s = .ok msg := by
  have hc : Catalogue.ofDecls "1" [{ name := "Brim", id := 1, body := .fields brimDecls }]
      = .ok brimCatalogue := by cbv
  have hbounds : ¬brimLayout.minLen ≤ brimLayout.maxLen := by decide
  obtain ⟨-, hfit, hframes⟩ := usable_iff ofDecls_brimDecls
  obtain ⟨hencode, hdecode⟩ := hframes _ _ _ hc _ List.mem_cons_self rfl
  exact ⟨hc, mt hfit.mpr hbounds, mt hencode.mp hbounds, mt hdecode.mp hbounds⟩

/-- A layout is accepted whose least length is beyond its greatest length. -/
theorem unusable_accepted :
    ¬∀ (owner : String) (decls : List FieldDecl) (l : Layout),
      ofDecls owner decls = .ok l → l.minLen ≤ l.maxLen ∧ l.maxLen ≤ maxPayload := by
  intro h
  exact absurd (h _ _ _ ofDecls_brimDecls).1 (by decide)

end Layout

end WireSchema
