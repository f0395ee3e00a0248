import Mathlib
import WireSchema.Proofs.Command.Typing
import WireSchema.Proofs.Wire.Conformance

/-!
# What is read from text can only be too long

A command is read with checks of its own, one for each number and each flag, and a frame is written
with others. A message that is read is well typed: it has a value of the right variant for each
field, and all numbers are in range. When it is written, only lengths are left to fail: the first
value that is too long for its field, or else the payload as a whole.

* `Field.WellTyped` — the values of a field in the value model, of any length;
* `Field.matches_iff_wellTyped` — they are those that match the field;
* `Field.write_of_tooLong` — a value that matches and is too long is refused for that;
* `MessageDef.LengthError`, `Catalogue.encode_of_matches` — so is a message, at its first value that
  is too long, or for its payload;
* `Catalogue.encode_of_ofCommand` — the messages that are read from commands.
-/

namespace WireSchema

/-! ### Well-typed values -/

/-- The values of a field in the value model, whatever their length: truth values for `bool`,
numbers in range for the other integers and for flags, bytes, text or words, and records with a
number in range for each column. -/
inductive Field.WellTyped (f : Field) : Value → Prop
  | bool {format : Format} (b : Bool) (hkind : f.kind = .scalar (.integer .bool format)) :
      WellTyped f (.bool b)
  | number {kind : ScalarKind} {n : ℤ} (hkind : f.kind = .scalar kind)
      (hbool : ∀ format, kind ≠ .integer .bool format) (hrange : kind.InRange n) :
      WellTyped f (.int n)
  | bytes {type : SeqType} {count : Option CountType} {format : Format} (s : Bytes)
      (hkind : f.kind = .sequence type count format) (htype : type = .bytes ∨ type = .vecU8) :
      WellTyped f (.bytes s)
  | text {count : Option CountType} {format : Format} (s : String)
      (hkind : f.kind = .sequence .utf8 count format) : WellTyped f (.text s)
  | words {count : Option CountType} {format : Format} (list : List UInt16)
      (hkind : f.kind = .sequence .vecU16 count format) : WellTyped f (.words list)
  | records {recordName : String} {columns : List Column} {itemLen maxItems : ℕ}
      {list : List (List ℤ)} (hkind : f.kind = .records recordName columns itemLen maxItems)
      (hrecords : ∀ record ∈ list,
        List.Forall₂ (fun column n => column.kind.InRange n) columns record) :
      WellTyped f (.records list)

namespace Field

variable {message : String} {f : Field} {v : Value}

theorem WellTyped.matches (h : f.WellTyped v) : f.Matches v := by
  unfold Matches
  cases h with
  | bool b hkind =>
    rw [hkind]
    trivial
  | number hkind hbool hrange =>
    rw [hkind]
    exact (matches_scalar_iff hbool).mpr ⟨_, rfl, hrange⟩
  | bytes s hkind htype =>
    rw [hkind]
    rcases htype with rfl | rfl <;> rfl
  | text s hkind =>
    rw [hkind]
    rfl
  | words list hkind =>
    rw [hkind]
    rfl
  | records hkind hrecords =>
    rw [hkind]
    intro record hrecord
    exact (hrecords record hrecord).imp fun _ _ => ScalarKind.holds_iff_inRange.mpr

theorem Matches.wellTyped (h : f.Matches v) : f.WellTyped v := by
  unfold Matches at h
  cases hkind : f.kind with
  | scalar kind =>
    rw [hkind] at h
    by_cases hbool : ∃ format, kind = .integer .bool format
    · obtain ⟨format, rfl⟩ := hbool
      cases v with
      | bool b => exact .bool b hkind
      | _ => exact h.elim
    · rw [not_exists] at hbool
      obtain ⟨n, rfl, hrange⟩ := (matches_scalar_iff hbool).mp h
      exact .number hkind hbool hrange
  | sequence type count format =>
    rw [hkind] at h
    obtain ⟨content, hcontent⟩ := Option.isSome_iff_exists.mp h
    unfold SeqType.content? at hcontent
    split at hcontent
    · exact .bytes _ hkind (Or.inl rfl)
    · exact .bytes _ hkind (Or.inr rfl)
    · exact .words _ hkind
    · exact .text _ hkind
    · cases hcontent
  | records recordName columns itemLen maxItems =>
    rw [hkind] at h
    cases v with
    | records list =>
      refine .records hkind fun record hrecord => ?_
      exact (h record hrecord).imp fun _ _ => ScalarKind.holds_iff_inRange.mp
    | _ => exact h.elim

/-- The values that match a field are the well-typed ones. -/
theorem matches_iff_wellTyped : f.Matches v ↔ f.WellTyped v :=
  ⟨Matches.wellTyped, WellTyped.matches⟩

/-! ### Values that are too long -/

/-- A value that matches its field and is longer than the field may be is refused for its length,
before anything of it is written. -/
theorem write_of_tooLong (hf : f.WellFormed) (hv : f.Matches v) (hlong : f.maxLen < f.lengthOf v) :
    f.write message v = .error (.fieldTooLong message f.name, 0) := by
  unfold Matches at hv
  cases hkind : f.kind with
  | scalar kind =>
    rw [lengthOf_scalar hkind, (hf.scalar hkind).2.2] at hlong
    exact absurd hlong (Nat.lt_irrefl _)
  | sequence type count format =>
    rw [hkind] at hv
    obtain ⟨content, hcontent⟩ := Option.isSome_iff_exists.mp hv
    have hcount := (hf.sequence hkind).count_le
    have hle := (hf.sequence hkind).min_le_max
    rw [lengthOf_sequence hkind hcontent] at hlong
    have hmost : f.contentMax count < content.length := by
      rw [contentMax_eq]
      omega
    rw [write_sequence hkind, writeSequence, hcontent]
    simp only [if_pos hmost]
    rfl
  | records recordName columns itemLen maxItems =>
    rw [hkind] at hv
    cases v with
    | records records =>
      rw [lengthOf_records hkind, (hf.records hkind).maxLen_eq] at hlong
      unfold write
      rw [hkind]
      exact if_pos (Nat.lt_of_mul_lt_mul_right hlong)
    | _ => exact hv.elim

end Field

/-- The first of the values that is too long for its field, behind `n` bytes of earlier values. -/
def FirstTooLong (pairs : List (Field × Value)) (n : ℕ) (f : Field) : Prop :=
  ∃ before v after, pairs = before ++ (f, v) :: after ∧
    (∀ p ∈ before, p.1.lengthOf p.2 ≤ p.1.maxLen) ∧
    n = (before.map fun p => p.1.lengthOf p.2).sum ∧ f.maxLen < f.lengthOf v

/-- Values that match their fields are written up to the first one that is too long. -/
theorem writeFields_of_matches {message : String} {fields : List Field} {values : List Value}
    (hfields : ∀ f ∈ fields, f.WellFormed) (h : List.Forall₂ Field.Matches fields values) :
    (∃ parts, List.Forall₂ (fun p part => p.1.write message p.2 = .ok part) (fields.zip values)
        parts) ∨
      ∃ n f, FirstTooLong (fields.zip values) n f ∧ ∀ done : List Bytes,
        writeFields message done fields values
          = .error (.fieldTooLong message f.name, done.flatten.length + n) := by
  induction h with
  | nil => exact Or.inl ⟨[], .nil⟩
  | @cons f v fields values hv _ ih =>
    rw [List.forall_mem_cons] at hfields
    by_cases hmost : f.lengthOf v ≤ f.maxLen
    · obtain ⟨s, hs⟩ : ∃ s, f.write message v = .ok s :=
        Field.write_of_matches hfields.1 hv hmost
      rcases ih hfields.2 with ⟨parts, hparts⟩ | ⟨n, g, hfirst, hwrite⟩
      · exact Or.inl ⟨s :: parts, .cons hs hparts⟩
      · obtain ⟨before, w, after, hsplit, hbefore, rfl, hlong⟩ := hfirst
        refine Or.inr ⟨f.lengthOf v + (before.map fun p => p.1.lengthOf p.2).sum, g,
          ⟨(f, v) :: before, w, after, ?_, ?_, rfl, hlong⟩, fun done => ?_⟩
        · rw [List.zip_cons_cons, hsplit, List.cons_append]
        · exact List.forall_mem_cons.mpr ⟨hmost, hbefore⟩
        · rw [writeFields, hs]
          simp only [hwrite, List.flatten_cons, List.length_append,
            (Field.length_of_write hfields.1 hs).1]
          congr 2
          omega
    · refine Or.inr ⟨0, f, ⟨[], v, _, rfl, ?_, rfl, Nat.not_le.mp hmost⟩, fun done => ?_⟩
      · exact fun p hp => absurd hp List.not_mem_nil
      · rw [writeFields, Field.write_of_tooLong hfields.1 hv (Nat.not_le.mp hmost)]

/-- The errors that a message is refused with for lengths alone: at the first value that is too long
for its field, or for the length of the payload. -/
inductive MessageDef.LengthError (m : MessageDef) (msg : Message) : WireError → Prop
  | field {n : ℕ} {f : Field} (hfirst : FirstTooLong (m.layout.fields.zip msg.values) n f) :
      LengthError m msg ⟨msg.userId, msg.type, n, .fieldTooLong m.name f.name⟩
  | payload (hbounds : ¬(m.layout.minLen ≤ m.lengthOf msg.values ∧
        m.lengthOf msg.values ≤ m.layout.maxLen)) :
      LengthError m msg ⟨msg.userId, msg.type, m.lengthOf msg.values,
        .badLength (m.lengthOf msg.values) m.layout.minLen m.layout.maxLen⟩

namespace Catalogue

variable {version : String} {decls : List MessageDecl} {c : Catalogue} {options : CommandOptions}
  {cmd : Command} {msg : Message} {m : MessageDef}

/-- Writing a message whose values match their fields fails for lengths alone. -/
theorem encode_of_matches (hc : ofDecls version decls = .ok c) (hm : c.byId? msg.type = some m)
    (hvalues : List.Forall₂ Field.Matches m.layout.fields msg.values) :
    (∃ frame, c.encode msg = .ok frame) ∨ ∃ e, c.encode msg = .error e ∧ m.LengthError msg e := by
  have hl := wellFormed_of_mem hc (byId?_eq_some hm).1
  have hlength : msg.values.length = m.layout.fields.length := hvalues.length_eq.symm
  rcases @writeFields_of_matches m.name _ _ hl.fields hvalues with
    ⟨parts, hparts⟩ | ⟨n, f, hfirst, hwrite⟩
  · have htotal : parts.flatten.length = m.lengthOf msg.values :=
      length_flatten_of_write hl.fields hparts
    by_cases hbounds : m.layout.minLen ≤ m.lengthOf msg.values ∧
        m.lengthOf msg.values ≤ m.layout.maxLen
    · rw [← htotal, ← MessageDef.checkLength_iff_bounds hl] at hbounds
      exact Or.inl (encode_iff_writePayload.mpr
        ⟨m, _, hm, MessageDef.writePayload_of_forall₂ hlength hparts hbounds⟩)
    · refine Or.inr ⟨_, ?_, .payload hbounds⟩
      rw [← htotal, ← MessageDef.checkLength_iff_bounds hl] at hbounds
      have hcheck : m.checkLength parts.flatten.length
          = .error (.badLength parts.flatten.length m.layout.minLen m.layout.maxLen) := by
        unfold MessageDef.checkLength at hbounds ⊢
        split_ifs at hbounds ⊢
        · rfl
        · exact absurd rfl hbounds
      have hpayload : m.writePayload msg.values = .error
          (.badLength parts.flatten.length m.layout.minLen m.layout.maxLen,
            parts.flatten.length) := by
        rw [MessageDef.writePayload, if_neg (not_not.mpr hlength), writeFields_of_forall₂ hparts]
        simp only [List.reverse_nil, List.flatten_nil, List.nil_append, hcheck]
      simp only [encode, hm, hpayload, htotal]
  · refine Or.inr ⟨_, ?_, .field hfirst⟩
    have hpayload : m.writePayload msg.values = .error (.fieldTooLong m.name f.name, n) := by
      rw [MessageDef.writePayload, if_neg (not_not.mpr hlength), hwrite]
      simp only [List.flatten_nil, List.length_nil, Nat.zero_add]
    simp only [encode, hm, hpayload]

/-- A message that is read from a command has a type of the catalogue and a well-typed value for
each field. It can be written, unless a value is too long for its field or the payload has a length
that its type does not allow; it is refused for nothing else. -/
theorem encode_of_ofCommand (hc : ofDecls version decls = .ok c)
    (h : c.ofCommand options cmd = .ok msg) :
    ∃ m, c.byId? msg.type = some m ∧ List.Forall₂ Field.WellTyped m.layout.fields msg.values ∧
      ((∃ frame, c.encode msg = .ok frame) ∨
        ∃ e, c.encode msg = .error e ∧ m.LengthError msg e) := by
  obtain ⟨m, hm, hvalues⟩ := matches_of_ofCommand hc h
  exact ⟨m, hm, hvalues.imp fun _ _ => Field.matches_iff_wellTyped.mp,
    encode_of_matches hc hm hvalues⟩

theorem encode_of_ofCommand_label :
    ∃ m e, labelCatalogue.byId? 1 = some m ∧
      List.Forall₂ Field.WellTyped m.layout.fields [.bytes [], .text "abc"] ∧
      labelCatalogue.encode ⟨7, 1, [.bytes [], .text "abc"]⟩ = .error e ∧
      m.LengthError ⟨7, 1, [.bytes [], .text "abc"]⟩ e := by
  have hread : labelCatalogue.ofCommand {} ⟨7, "label", [("b", "abc")], []⟩
      = .ok ⟨7, 1, [.bytes [], .text "abc"]⟩ := by cbv
  have hwrite : labelCatalogue.encode ⟨7, 1, [.bytes [], .text "abc"]⟩
      = .error ⟨7, 1, 1, .fieldTooLong "Label" "b"⟩ := by decide
  obtain ⟨m, hm, htyped, ⟨frame, hframe⟩ | ⟨e, he, hlength⟩⟩ :=
    encode_of_ofCommand ofDecls_labelDecls hread
  · cases hwrite.symm.trans hframe
  · exact ⟨m, e, hm, htyped, he, hlength⟩

end Catalogue

end WireSchema
