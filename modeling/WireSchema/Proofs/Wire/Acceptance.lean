import Mathlib
import WireSchema.Proofs.Wire.RoundTrip

/-!
# Writing after reading

What is read from a frame is not always written again: reading measures the payload as a whole,
where a last field without a count may be longer than it is declared and bytes that no field uses
count too, but writing measures each field and their total. The bytes that each field was read from
decide.

* `fieldParts` and `Catalogue.parts` — the bytes that each field is read from;
* `readFields_eq_ok` — what is read from them;
* `Catalogue.encode_decode_iff` — the messages that are written again.
-/

namespace WireSchema

/-! ### The bytes of each field -/

/-- The fields that are read from a payload, each with the bytes that it is read from. -/
def fieldParts (message : String) : List Field → Bytes → List (Field × Bytes)
  | [], _ => []
  | f :: fields, s =>
    match f.read message s with
    | .ok (_, rest) => (f, Field.taken s rest) :: fieldParts message fields rest
    | .error _ => []

/-- The fields that are read from the first frame of a byte string, with the bytes of each. -/
def Catalogue.parts (c : Catalogue) (s : Bytes) : List (Field × Bytes) :=
  match splitFrame? s with
  | none => []
  | some ((h, payload), _) =>
    match c.byId? h.type with
    | none => []
    | some m => fieldParts m.name m.layout.fields payload

/-- The total length of the bytes of each field. -/
def partsLength (parts : List (Field × Bytes)) : Nat :=
  (parts.map fun p => p.2.length).sum

/-- What holds of the bytes that a field was read from and its value: the value matches the field,
and has the length of the bytes unless they are malformed text. -/
def PartMatches (p : Field × Bytes) (v : Value) : Prop :=
  p.1.Matches v ∧ (p.1.HoldsText p.2 → p.2.length = p.1.lengthOf v)

/-- Fields are read one after the other, and the bytes that they are read from stand in the same
order at the front of the payload. -/
theorem readFields_eq_ok {message : String} {fields : List Field} {s rest : Bytes}
    {values : List Value} (hfields : ∀ f ∈ fields, f.WellFormed)
    (h : readFields message fields s = .ok (values, rest)) :
    (fieldParts message fields s).map Prod.fst = fields ∧
      List.Forall₂ PartMatches (fieldParts message fields s) values ∧
      partsLength (fieldParts message fields s) ≤ s.length := by
  induction fields generalizing s values with
  | nil =>
    cases h
    exact ⟨rfl, .nil, Nat.zero_le _⟩
  | cons f fields ih =>
    rw [List.forall_mem_cons] at hfields
    obtain ⟨v, vs, tail, rfl, hv, hvs⟩ := readFields_cons_eq_ok h
    obtain ⟨part, rfl, hmatches, hlength, -⟩ := Field.read_eq_ok hfields.1 hv
    obtain ⟨hmap, hparts, hle⟩ := ih hfields.2 hvs
    have hcons : fieldParts message (f :: fields) (part ++ tail)
        = (f, part) :: fieldParts message fields tail := by
      rw [fieldParts, hv]
      simp only [Field.taken_append]
    rw [hcons]
    refine ⟨?_, .cons ⟨hmatches, hlength⟩ hparts, ?_⟩
    · rw [List.map_cons, hmap]
    · unfold partsLength at hle ⊢
      rw [List.map_cons, List.sum_cons, List.length_append]
      exact Nat.add_le_add_left hle _

/-- The steps of reading a frame: it is split off, its type is looked up, the length of its payload
is checked unless the message has no fields, and the fields are read. -/
theorem Catalogue.readFields_of_decode {c : Catalogue} {s : Bytes} {msg : Message}
    (h : c.decode s = .ok msg) :
    ∃ payload rest m tail,
      splitFrame? s = some ((⟨UInt16.ofNat payload.length, msg.type, msg.userId⟩, payload), rest) ∧
        payload.length ≤ maxPayload ∧ c.byId? msg.type = some m ∧
        (m.layout.fields ≠ [] → m.checkLength payload.length = .ok ()) ∧
        readFields m.name m.layout.fields payload = .ok (msg.values, tail) ∧
        c.parts s = fieldParts m.name m.layout.fields payload := by
  unfold decode at h
  split at h
  · cases h
  rename_i header payload rest hsplit
  have hlength := (splitFrame?_eq_some hsplit).2
  have hmost : payload.length ≤ maxPayload := by
    rw [hlength]
    exact Nat.le_of_lt_succ header.payloadLen.toNat_lt
  unfold decodeFrame at h
  simp only at h
  split at h
  · cases h
  rename_i m hm
  split at h
  · cases h
  rename_i values hvalues
  cases h
  have hparts : c.parts s = fieldParts m.name m.layout.fields payload := by
    rw [parts, hsplit]
    simp only [hm]
  have hheader : (⟨UInt16.ofNat payload.length, header.type, header.userId⟩ : FrameHeader)
      = header := by
    rw [hlength, UInt16.ofNat_toNat]
  unfold MessageDef.readPayload at hvalues
  simp only at hvalues
  split at hvalues
  · cases hvalues
  rename_i hcheck
  split at hvalues
  · cases hvalues
  rename_i vs tail hread
  cases hvalues
  refine ⟨payload, rest, m, tail, ?_, hmost, hm, fun hne => ?_, hread, hparts⟩
  · rw [hheader]
    exact hsplit
  · rwa [if_neg (by rwa [List.isEmpty_iff])] at hcheck

/-- What reading a frame gives: a message of the catalogue, with the bytes of each field. -/
theorem Catalogue.decode_eq_ok {version : String} {decls : List MessageDecl} {c : Catalogue}
    {s : Bytes} {msg : Message} (hc : ofDecls version decls = .ok c) (h : c.decode s = .ok msg) :
    ∃ m, c.byId? msg.type = some m ∧ (c.parts s).map Prod.fst = m.layout.fields ∧
      List.Forall₂ PartMatches (c.parts s) msg.values ∧ partsLength (c.parts s) ≤ maxPayload := by
  obtain ⟨payload, rest, m, tail, -, hmost, hm, -, hread, hparts⟩ := readFields_of_decode h
  have hl := wellFormed_of_mem hc (byId?_eq_some hm).1
  obtain ⟨hmap, hforall, hle⟩ := readFields_eq_ok hl.fields hread
  refine ⟨m, hm, ?_⟩
  rw [hparts]
  exact ⟨hmap, hforall, Nat.le_trans hle hmost⟩

/-! ### Writing them again -/

/-- Values whose bytes are given one by one are written as those bytes. -/
theorem writeFields_of_forall₂ {message : String} {done : List Bytes} {fields : List Field}
    {values : List Value} {parts : List Bytes}
    (h : List.Forall₂ (fun p part => p.1.write message p.2 = .ok part) (fields.zip values) parts) :
    writeFields message done fields values = .ok (done.reverse.flatten ++ parts.flatten) := by
  induction fields generalizing done values parts with
  | nil =>
    cases h
    rw [writeFields, List.flatten_nil, List.append_nil]
    intro f fields v values hfields
    cases hfields
  | cons f fields ih =>
    cases values with
    | nil =>
      cases h
      rw [writeFields, List.flatten_nil, List.append_nil]
      intro g gs v values hfields hvalues
      cases hvalues
    | cons v values =>
      rw [List.zip_cons_cons, List.forall₂_cons_left_iff] at h
      obtain ⟨part, parts', hpart, hparts, rfl⟩ := h
      simp only [writeFields, hpart, ih hparts, List.reverse_cons, List.flatten_append,
        List.flatten_nil, List.nil_append, List.flatten_cons, List.append_assoc]

theorem MessageDef.writePayload_of_forall₂ {m : MessageDef} {values : List Value}
    {out : List Bytes} (hlength : values.length = m.layout.fields.length)
    (hout : List.Forall₂ (fun p part => p.1.write m.name p.2 = .ok part)
      (m.layout.fields.zip values) out)
    (hcheck : m.checkLength out.flatten.length = .ok ()) :
    m.writePayload values = .ok out.flatten := by
  unfold writePayload
  rw [if_neg (not_not.mpr hlength), writeFields_of_forall₂ hout, List.reverse_nil, List.flatten_nil,
    List.nil_append]
  simp only [hcheck]

/-- A part can be written again if it is not longer than its field allows. -/
theorem write_part_iff {message : String} {p : Field × Bytes} {v : Value}
    (hf : p.1.WellFormed) (htext : p.1.HoldsText p.2) (hv : PartMatches p v) :
    (∃ s, p.1.write message v = .ok s) ↔ p.2.length ≤ p.1.maxLen := by
  rw [Field.write_eq_ok_iff hf hv.1, hv.2 htext]

/-- The bytes of the values are as long as the bytes they were read from. -/
theorem length_of_write_part {message : String} {p : Field × Bytes} {v : Value} {s : Bytes}
    (hf : p.1.WellFormed) (htext : p.1.HoldsText p.2) (hv : PartMatches p v)
    (h : p.1.write message v = .ok s) : s.length = p.2.length := by
  rw [(Field.length_of_write hf h).1, hv.2 htext]

/-- Values that match the bytes they were read from are all written again if none of those bytes
are more than their field allows, and then in as many bytes. -/
theorem writeFields_parts_iff {message : String} {parts : List (Field × Bytes)}
    {values : List Value} (hfields : ∀ p ∈ parts, p.1.WellFormed)
    (htext : ∀ p ∈ parts, p.1.HoldsText p.2) (h : List.Forall₂ PartMatches parts values) :
    (∃ out, List.Forall₂ (fun p part => p.1.write message p.2 = .ok part)
        ((parts.map Prod.fst).zip values) out) ↔ ∀ p ∈ parts, p.2.length ≤ p.1.maxLen := by
  induction h with
  | nil => exact ⟨fun _ p hp => absurd hp List.not_mem_nil, fun _ => ⟨[], .nil⟩⟩
  | @cons p v parts values hv _ ih =>
    rw [List.forall_mem_cons] at hfields htext ⊢
    rw [← write_part_iff hfields.1 htext.1 hv, ← ih hfields.2 htext.2, List.map_cons,
      List.zip_cons_cons]
    constructor
    · rintro ⟨out, hout⟩
      obtain ⟨s, out', hs, hout', rfl⟩ := List.forall₂_cons_left_iff.mp hout
      exact ⟨⟨s, hs⟩, out', hout'⟩
    · rintro ⟨⟨s, hs⟩, out', hout'⟩
      exact ⟨s :: out', .cons hs hout'⟩

theorem length_flatten_of_parts {message : String} {parts : List (Field × Bytes)}
    {values : List Value} {out : List Bytes} (hfields : ∀ p ∈ parts, p.1.WellFormed)
    (htext : ∀ p ∈ parts, p.1.HoldsText p.2) (h : List.Forall₂ PartMatches parts values)
    (hout : List.Forall₂ (fun p part => p.1.write message p.2 = .ok part)
      ((parts.map Prod.fst).zip values) out) : out.flatten.length = partsLength parts := by
  induction h generalizing out with
  | nil =>
    cases hout
    rfl
  | @cons p v parts values hv _ ih =>
    rw [List.forall_mem_cons] at hfields htext
    rw [List.map_cons, List.zip_cons_cons] at hout
    obtain ⟨s, out', hs, hout', rfl⟩ := List.forall₂_cons_left_iff.mp hout
    rw [List.flatten_cons, List.length_append, ih hfields.2 htext.2 hout',
      length_of_write_part hfields.1 htext.1 hv hs, partsLength, partsLength, List.map_cons,
      List.sum_cons]

theorem partsLength_le_maxTotal {parts : List (Field × Bytes)}
    (h : ∀ p ∈ parts, p.2.length ≤ p.1.maxLen) :
    partsLength parts ≤ maxTotal (parts.map Prod.fst) := by
  induction parts with
  | nil => exact Nat.le_refl _
  | cons p parts ih =>
    rw [List.forall_mem_cons] at h
    rw [partsLength, List.map_cons, List.sum_cons, List.map_cons, maxTotal_cons]
    exact Nat.add_le_add h.1 (ih h.2)

/-- Where no field is longer than it may be, only the least length of a payload is left to check. -/
theorem MessageDef.checkLength_eq_ok_iff {m : MessageDef} (hl : m.layout.WellFormed) {length : Nat}
    (hmax : length ≤ maxTotal m.layout.fields) (hmost : length ≤ maxPayload) :
    m.checkLength length = .ok () ↔ m.layout.minLen ≤ length := by
  have hbound : length ≤ m.layout.maxLen := by
    rw [hl.maxLen_eq]
    exact Nat.le_min.mpr ⟨hmax, hmost⟩
  rw [checkLength_iff_bounds hl]
  exact and_iff_left hbound

namespace Catalogue

variable {version : String} {decls : List MessageDecl} {c : Catalogue} {s : Bytes} {msg : Message}
  {m : MessageDef}

/-- A message that was read from a frame with well-formed text is written again exactly if no field
was read from more bytes than it may have and all of these together are as many as the message needs
at least. -/
theorem encode_decode_iff (hc : ofDecls version decls = .ok c) (h : c.decode s = .ok msg)
    (hm : c.byId? msg.type = some m) (htext : ∀ p ∈ c.parts s, p.1.HoldsText p.2) :
    (∃ frame, c.encode msg = .ok frame) ↔
      (∀ p ∈ c.parts s, p.2.length ≤ p.1.maxLen) ∧ m.layout.minLen ≤ partsLength (c.parts s) := by
  have hl := wellFormed_of_mem hc (byId?_eq_some hm).1
  obtain ⟨m', hm', hmap, hparts, hmost⟩ := decode_eq_ok hc h
  cases hm.symm.trans hm'
  have hfields : ∀ p ∈ c.parts s, p.1.WellFormed := by
    intro p hp
    exact hl.fields p.1 (hmap ▸ List.mem_map_of_mem hp)
  have hlength : msg.values.length = m.layout.fields.length := by
    rw [← hparts.length_eq, ← hmap, List.length_map]
  have hwrite := @writeFields_parts_iff m.name _ _ hfields htext hparts
  rw [← hwrite, hmap]
  constructor
  · rintro ⟨frame, hframe⟩
    obtain ⟨m', payload, hm', hpayload, -⟩ := encode_eq_ok hframe
    cases hm.symm.trans hm'
    obtain ⟨-, hcheck, out, rfl, hout⟩ := MessageDef.writePayload_eq_ok hpayload
    rw [← hmap] at hout
    have hbounds := partsLength_le_maxTotal (hwrite.mp ⟨out, hout⟩)
    rw [length_flatten_of_parts hfields htext hparts hout] at hcheck
    rw [hmap] at hout hbounds
    exact ⟨⟨out, hout⟩, (MessageDef.checkLength_eq_ok_iff hl hbounds hmost).mp hcheck⟩
  · rintro ⟨⟨out, hout⟩, hmin⟩
    have hbounds := partsLength_le_maxTotal (hwrite.mp ⟨out, hmap.symm ▸ hout⟩)
    have htotal := length_flatten_of_parts hfields htext hparts (hmap.symm ▸ hout)
    rw [hmap] at hbounds
    have hcheck : m.checkLength out.flatten.length = .ok () := by
      rw [htotal]
      exact (MessageDef.checkLength_eq_ok_iff hl hbounds hmost).mpr hmin
    refine ⟨frameBytes (⟨UInt16.ofNat out.flatten.length, msg.type, msg.userId⟩, out.flatten), ?_⟩
    simp only [encode, hm, MessageDef.writePayload_of_forall₂ hlength hout hcheck]
    rfl

/-- Bytes with a count, and text of at most two bytes after them. -/
def labelDecls : List MessageDecl :=
  [{ name := "Label", id := 1
     body := .fields [.long "a bytes" none { maxLen := some 3 },
       .long "b utf8" none { maxLen := some 2 }] }]

/-- The catalogue of `labelDecls`. -/
def labelCatalogue : Catalogue :=
  ⟨"1", [⟨"Label", "label", 1, "", none,
    ⟨[⟨"a", 1, 4, .sequence .bytes (some .u8) .plain⟩, ⟨"b", 0, 2, .sequence .utf8 none .plain⟩],
      1, 6⟩⟩]⟩

theorem ofDecls_labelDecls : ofDecls "1" labelDecls = .ok labelCatalogue := by
  cbv

theorem encode_decode_label :
    (∃ frame, labelCatalogue.encode ⟨5, 1, [.bytes [], .text "hi"]⟩ = .ok frame) ↔
      (∀ p ∈ labelCatalogue.parts [0, 3, 1, 5, 0, 0x68, 0x69], p.2.length ≤ p.1.maxLen) ∧
        1 ≤ partsLength (labelCatalogue.parts [0, 3, 1, 5, 0, 0x68, 0x69]) := by
  have hparts : labelCatalogue.parts [0, 3, 1, 5, 0, 0x68, 0x69]
      = [(⟨"a", 1, 4, .sequence .bytes (some .u8) .plain⟩, [0]),
        (⟨"b", 0, 2, .sequence .utf8 none .plain⟩, [0x68, 0x69])] := by decide
  have hread : labelCatalogue.decode [0, 3, 1, 5, 0, 0x68, 0x69]
      = .ok ⟨5, 1, [.bytes [], .text "hi"]⟩ := by cbv
  refine encode_decode_iff ofDecls_labelDecls hread rfl ?_
  intro p hp count format hkind
  rw [hparts] at hp
  rcases List.mem_cons.mp hp with rfl | hp
  · cases hkind
  rcases List.mem_cons.mp hp with rfl | hp
  · cases hkind
    exact ⟨['h', 'i'], rfl⟩
  · cases hp

/-- Text of three bytes is read where only two are allowed, and then not written again. -/
theorem read_not_written :
    ¬∀ (version : String) (decls : List MessageDecl) (c : Catalogue) (s : Bytes) (msg : Message),
      ofDecls version decls = .ok c → c.decode s = .ok msg →
        (∀ p ∈ c.parts s, p.1.HoldsText p.2) → ∃ frame, c.encode msg = .ok frame := by
  intro h
  have hparts : labelCatalogue.parts [0, 4, 1, 5, 0, 0x61, 0x62, 0x63]
      = [(⟨"a", 1, 4, .sequence .bytes (some .u8) .plain⟩, [0]),
        (⟨"b", 0, 2, .sequence .utf8 none .plain⟩, [0x61, 0x62, 0x63])] := by decide
  have hread : labelCatalogue.decode [0, 4, 1, 5, 0, 0x61, 0x62, 0x63]
      = .ok ⟨5, 1, [.bytes [], .text "abc"]⟩ := by cbv
  have hwrite : labelCatalogue.encode ⟨5, 1, [.bytes [], .text "abc"]⟩
      = .error ⟨5, 1, 1, .fieldTooLong "Label" "b"⟩ := by decide
  obtain ⟨frame, hframe⟩ := h "1" labelDecls labelCatalogue _ _ ofDecls_labelDecls hread (by
    intro p hp count format hkind
    rw [hparts] at hp
    rcases List.mem_cons.mp hp with rfl | hp
    · cases hkind
    rcases List.mem_cons.mp hp with rfl | hp
    · cases hkind
      exact ⟨['a', 'b', 'c'], rfl⟩
    · cases hp)
  rw [hwrite] at hframe
  cases hframe

end Catalogue

end WireSchema
