import Mathlib
import WireSchema.Proofs.Schema.Catalogue
import WireSchema.Proofs.Wire.Field
import WireSchema.Proofs.Wire.Frame

/-!
# Reading after writing

A message that is written as a frame is read back from it, for every catalogue of declarations. The
induction is on the fields: all but the last show where they end, so that the bytes of later fields
do not disturb them, and the last one may take all that is left.

* `writeFields_eq_ok` — the bytes of values are the bytes of each, in the order of the fields;
* `readFields_of_forall₂` — values are read back from the bytes of each;
* `Catalogue.decode_encode_append` — a message is read back from its frame, whatever follows it.
-/

namespace WireSchema

/-! ### Payloads -/

/-- The bytes of values are the bytes of each, in the order of the fields. -/
theorem writeFields_eq_ok {message : String} {done : List Bytes} {fields : List Field}
    {values : List Value} {s : Bytes} (hlength : values.length = fields.length)
    (h : writeFields message done fields values = .ok s) :
    ∃ parts, s = done.reverse.flatten ++ parts.flatten ∧
      List.Forall₂ (fun p part => p.1.write message p.2 = .ok part) (fields.zip values) parts := by
  induction fields generalizing done values with
  | nil =>
    cases h
    exact ⟨[], by simp, .nil⟩
  | cons f fields ih =>
    cases values with
    | nil => simp at hlength
    | cons v values =>
      rw [writeFields] at h
      split at h
      · cases h
      rename_i part hpart
      obtain ⟨parts, hs, hparts⟩ := ih (by simpa using hlength) h
      refine ⟨part :: parts, ?_, .cons hpart hparts⟩
      rw [hs, List.reverse_cons, List.flatten_append, List.flatten_singleton, List.flatten_cons,
        List.append_assoc]

/-- Reading fields gives the value of the first, and the values of the others from the bytes that it
leaves. -/
theorem readFields_cons_eq_ok {message : String} {f : Field} {fields : List Field}
    {values : List Value} {s rest : Bytes}
    (h : readFields message (f :: fields) s = .ok (values, rest)) :
    ∃ v vs tail, values = v :: vs ∧ f.read message s = .ok (v, tail) ∧
      readFields message fields tail = .ok (vs, rest) := by
  rw [readFields] at h
  split at h
  · cases h
  rename_i v tail hv
  split at h
  · cases h
  rename_i vs rest' hvs
  cases h
  exact ⟨v, vs, tail, rfl, hv, hvs⟩

/-- Values are read back from the bytes of each, in the order of the fields. -/
theorem readFields_of_forall₂ {message : String} {fields : List Field} {values : List Value}
    {parts : List Bytes} {prevMin prevMax : Nat} (hplaced : PlacedFrom prevMin prevMax fields)
    (hfields : ∀ f ∈ fields, f.WellFormed) (hbool : ∀ p ∈ fields.zip values, p.1.HoldsBool p.2)
    (hlength : values.length = fields.length)
    (h : List.Forall₂ (fun p part => p.1.write message p.2 = .ok part) (fields.zip values) parts) :
    readFields message fields parts.flatten = .ok (values, []) := by
  induction fields generalizing values parts prevMin prevMax with
  | nil =>
    cases h
    rw [List.eq_nil_of_length_eq_zero hlength]
    rfl
  | cons f fields ih =>
    cases values with
    | nil => simp at hlength
    | cons v values =>
      rw [List.zip_cons_cons, List.forall₂_cons_left_iff] at h
      obtain ⟨part, parts', hpart, hparts, rfl⟩ := h
      rw [List.zip_cons_cons, List.forall_mem_cons] at hbool
      rw [List.forall_mem_cons] at hfields
      have hlength' : values.length = fields.length := by simpa using hlength
      have hrest : f.IsDelimited ∨ parts'.flatten = [] := by
        cases fields with
        | nil =>
          cases hparts
          exact Or.inr rfl
        | cons g fields => exact Or.inl hplaced.1.isDelimited
      have hread := Field.read_write_append hfields.1 hbool.1 hpart hrest
      have htail := ih hplaced.2 hfields.2 hbool.2 hlength' hparts
      simp only [List.flatten_cons, readFields, hread, htail]

namespace MessageDef

variable {m : MessageDef} {values : List Value} {payload : Bytes}

theorem checkLength_eq_ok {length : Nat} (h : m.checkLength length = .ok ()) :
    length ≤ maxPayload ∧ (m.layout.hasBounds = true →
      m.layout.minLen ≤ length ∧ length ≤ m.layout.maxLen) := by
  unfold checkLength at h
  split at h
  · cases h
  · rename_i hbounds
    rw [not_or, not_and, not_or] at hbounds
    refine ⟨by omega, fun hb => ?_⟩
    have := hbounds.2 hb
    omega

/-- The lengths that pass are those between the bounds of the layout, both included: a layout
without bounds excludes no length that a frame can carry. -/
theorem checkLength_iff_bounds (hl : m.layout.WellFormed) {length : Nat} :
    m.checkLength length = .ok () ↔ m.layout.minLen ≤ length ∧ length ≤ m.layout.maxLen := by
  have hmost : m.layout.maxLen ≤ maxPayload := by
    rw [hl.maxLen_eq]
    exact Nat.min_le_right _ _
  constructor
  · intro h
    by_cases hb : m.layout.hasBounds = true
    · exact (checkLength_eq_ok h).2 hb
    · have hle := (checkLength_eq_ok h).1
      rw [Layout.hasBounds, Bool.or_eq_true, not_or, decide_eq_true_eq, decide_eq_true_eq] at hb
      omega
  · intro h
    unfold checkLength
    rw [if_neg]
    omega

/-- The lengths that pass are between the totals of the fields. -/
theorem total_of_checkLength (hl : m.layout.WellFormed) {length : Nat}
    (h : m.checkLength length = .ok ()) :
    minTotal m.layout.fields ≤ length ∧ length ≤ maxTotal m.layout.fields := by
  have hbounds := (checkLength_iff_bounds hl).mp h
  rw [hl.minLen_eq, hl.maxLen_eq] at hbounds
  exact ⟨hbounds.1, hbounds.2.trans (Nat.min_le_left _ _)⟩

/-- What writing a payload gives: the bytes of each value, of a total length that is allowed. -/
theorem writePayload_eq_ok (h : m.writePayload values = .ok payload) :
    values.length = m.layout.fields.length ∧ m.checkLength payload.length = .ok () ∧
      ∃ parts, payload = parts.flatten ∧
        List.Forall₂ (fun p part => p.1.write m.name p.2 = .ok part)
          (m.layout.fields.zip values) parts := by
  unfold writePayload at h
  split at h
  · cases h
  rename_i hlength
  rw [not_not] at hlength
  split at h
  · cases h
  rename_i written hwritten
  split at h
  · cases h
  rename_i hcheck
  cases h
  obtain ⟨parts, hs, hparts⟩ := writeFields_eq_ok hlength hwritten
  exact ⟨hlength, hcheck, parts, hs, hparts⟩

/-- The length of a payload that is written fits in the header of a frame. -/
theorem length_of_writePayload (h : m.writePayload values = .ok payload) :
    payload.length = (UInt16.ofNat payload.length).toNat := by
  have hmost := (checkLength_eq_ok (writePayload_eq_ok h).2.1).1
  rw [UInt16.toNat_ofNat']
  exact (Nat.mod_eq_of_lt (Nat.lt_of_le_of_lt hmost (by decide))).symm

/-- The values of a payload are read back as they were written. -/
theorem readPayload_of_writePayload (hl : m.layout.WellFormed)
    (hbool : ∀ p ∈ m.layout.fields.zip values, p.1.HoldsBool p.2)
    (h : m.writePayload values = .ok payload) : m.readPayload payload = .ok values := by
  obtain ⟨hlength, hcheck, parts, rfl, hparts⟩ := writePayload_eq_ok h
  have hread := readFields_of_forall₂ hl.placed hl.fields hbool hlength hparts
  unfold readPayload
  rw [hcheck, ite_self]
  simp only [hread]

end MessageDef

/-! ### Frames -/

namespace Catalogue

variable {version : String} {decls : List MessageDecl} {c : Catalogue} {msg : Message}

/-- The `bool` fields of a message hold truth values. A number is written there too, but read back
as a truth value. -/
def HoldsBools (c : Catalogue) (msg : Message) : Prop :=
  ∀ m, c.byId? msg.type = some m → ∀ p ∈ m.layout.fields.zip msg.values, p.1.HoldsBool p.2

theorem holdsBools_of_matches {m : MessageDef} (hm : c.byId? msg.type = some m)
    (h : List.Forall₂ Field.Matches m.layout.fields msg.values) : c.HoldsBools msg := by
  intro m' hm' p hp
  cases hm.symm.trans hm'
  exact (List.forall₂_zip h hp).holdsBool

/-- What writing a message gives: a header with the length of its payload, and the payload. -/
theorem encode_eq_ok {frame : Bytes} (h : c.encode msg = .ok frame) :
    ∃ m payload, c.byId? msg.type = some m ∧ m.writePayload msg.values = .ok payload ∧
      frame = frameBytes (⟨UInt16.ofNat payload.length, msg.type, msg.userId⟩, payload) := by
  unfold encode at h
  split at h
  · cases h
  rename_i m hm
  split at h
  · cases h
  rename_i payload hpayload
  cases h
  exact ⟨m, payload, hm, hpayload, rfl⟩

/-- The frame of a message is its payload behind a header. -/
theorem splitFrame?_of_encode {frame : Bytes} (h : c.encode msg = .ok frame) :
    ∃ m payload, c.byId? msg.type = some m ∧ m.writePayload msg.values = .ok payload ∧
      splitFrame? frame
        = some ((⟨UInt16.ofNat payload.length, msg.type, msg.userId⟩, payload), []) := by
  obtain ⟨m, payload, hm, hpayload, rfl⟩ := encode_eq_ok h
  have hsplit := splitFrame?_frameBytes_append
    (h := ⟨UInt16.ofNat payload.length, msg.type, msg.userId⟩)
    (MessageDef.length_of_writePayload hpayload) []
  rw [List.append_nil] at hsplit
  exact ⟨m, payload, hm, hpayload, hsplit⟩

/-- A message is read back from its frame, by itself and whatever follows it. -/
theorem decode_encode_append (hc : ofDecls version decls = .ok c) (hbool : c.HoldsBools msg)
    {frame : Bytes} (h : c.encode msg = .ok frame) (rest : Bytes) :
    c.decode (frame ++ rest) = .ok msg ∧ c.decode frame = .ok msg := by
  obtain ⟨m, payload, hm, hpayload, rfl⟩ := encode_eq_ok h
  have hl := wellFormed_of_mem hc (byId?_eq_some hm).1
  have hread := MessageDef.readPayload_of_writePayload hl (hbool m hm) hpayload
  have hmost := (MessageDef.checkLength_eq_ok (MessageDef.writePayload_eq_ok hpayload).2.1).1
  have hlength : payload.length = (UInt16.ofNat payload.length).toNat := by
    rw [UInt16.toNat_ofNat']
    exact (Nat.mod_eq_of_lt (Nat.lt_of_le_of_lt hmost (by decide))).symm
  have hframe : c.decodeFrame ⟨UInt16.ofNat payload.length, msg.type, msg.userId⟩ payload
      = .ok msg := by
    simp only [decodeFrame, hm, hread]
  have hdecode : ∀ tail, c.decode (frameBytes
      (⟨UInt16.ofNat payload.length, msg.type, msg.userId⟩, payload) ++ tail) = .ok msg := by
    intro tail
    rw [c.decode_frameBytes_append hlength tail]
    exact hframe
  refine ⟨hdecode rest, ?_⟩
  have hbare := hdecode []
  rwa [List.append_nil] at hbare

/-- A message with a truth value, a signed number and text. -/
def noteDecls : List MessageDecl :=
  [{ name := "Note", id := 1
     body := .fields [.short "on bool", .short "at i16", .short "text utf8"] }]

/-- The catalogue of `noteDecls`. -/
def noteCatalogue : Catalogue :=
  ⟨"1", [⟨"Note", "note", 1, "", none,
    ⟨[Field.ofScalar "on" (.integer .bool .plain), Field.ofScalar "at" (.integer .i16 .plain),
      ⟨"text", 0, 65532, .sequence .utf8 none .plain⟩], 3, 65535⟩⟩]⟩

theorem ofDecls_noteDecls : ofDecls "1" noteDecls = .ok noteCatalogue := by
  cbv

theorem decode_encode_append_note :
    noteCatalogue.decode ([0, 5, 1, 7, 1, 0xfe, 0xd4, 0xc3, 0xa9] ++ [0xff])
        = .ok ⟨7, 1, [.bool true, .int (-300), .text "é"]⟩ ∧
      noteCatalogue.decode [0, 5, 1, 7, 1, 0xfe, 0xd4, 0xc3, 0xa9]
        = .ok ⟨7, 1, [.bool true, .int (-300), .text "é"]⟩ := by
  refine decode_encode_append ofDecls_noteDecls ?_ (by decide) [0xff]
  intro m hm
  cases hm
  intro p hp format hkind
  rcases List.mem_cons.mp hp with rfl | hp
  · exact ⟨true, rfl⟩
  rcases List.mem_cons.mp hp with rfl | hp
  · cases hkind
  rcases List.mem_cons.mp hp with rfl | hp
  · cases hkind
  · cases hp

end Catalogue

end WireSchema
