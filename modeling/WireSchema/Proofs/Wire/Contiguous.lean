import Mathlib
import WireSchema.Proofs.Wire.Canonical

/-!
# Fields stand one behind the other

Reading a payload takes the bytes of each field where those of the field before it end: none is
skipped, and none is read twice. This shows when the message is written again. Where the bytes of
text and truth values are well formed, every field is written as the bytes that it was read from, so
that the new payload is the old one without the bytes that no field used. There are none where the
last field takes all that is left, or where all fields are numbers, because the bounds on the
payload then fix its length.

* `readFields_rest_eq_nil` — a last field that does not show where it ends leaves nothing;
* `Catalogue.exists_payload_of_encode` — what is written is what was read, up to the unused bytes;
* `Catalogue.payload_of_encode` — the payload of the new frame.
-/

namespace WireSchema

/-! ### What is left -/

/-- A field that does not show where it ends takes all that is left. -/
theorem Field.rest_eq_nil {message : String} {f : Field} {v : Value} {s rest : Bytes}
    (hf : f.WellFormed) (hopen : ¬f.IsDelimited) (h : f.read message s = .ok (v, rest)) :
    rest = [] := by
  unfold IsDelimited at hopen
  cases hkind : f.kind with
  | scalar kind =>
    rw [hkind] at hopen
    exact absurd trivial hopen
  | sequence type count format =>
    rw [hkind, not_not] at hopen
    obtain ⟨content, -, -, -, -, hrest⟩ := read_sequence_eq_ok hkind h
    exact hrest hopen
  | records recordName columns itemLen maxItems =>
    exact (read_records_eq_ok hkind (hf.records hkind) h).1

/-- Where the last field does not show where it ends, no bytes are left. -/
theorem readFields_rest_eq_nil {message : String} {fields : List Field} {values : List Value}
    {s rest : Bytes} {f : Field} (hfields : ∀ g ∈ fields, g.WellFormed)
    (hlast : fields.getLast? = some f) (hopen : ¬f.IsDelimited)
    (h : readFields message fields s = .ok (values, rest)) : rest = [] := by
  induction fields generalizing s values with
  | nil => cases hlast
  | cons g fields ih =>
    rw [List.forall_mem_cons] at hfields
    obtain ⟨v, vs, tail, rfl, hv, hvs⟩ := readFields_cons_eq_ok h
    cases fields with
    | nil =>
      cases hlast
      cases hvs
      exact Field.rest_eq_nil hfields.1 hopen hv
    | cons g' fields =>
      rw [List.getLast?_cons_cons] at hlast
      exact ih hfields.2 hlast hvs

/-! ### The payload that is written -/

namespace Catalogue

variable {version : String} {decls : List MessageDecl} {c : Catalogue} {s frame : Bytes}
  {msg : Message} {m : MessageDef}

/-- A message that was read and can be written is written as the bytes that its fields were read
from, in front of those that no field used. -/
theorem exists_payload_of_encode (hc : ofDecls version decls = .ok c) (h : c.decode s = .ok msg)
    (hm : c.byId? msg.type = some m) (htext : ∀ p ∈ c.parts s, p.1.HoldsText p.2)
    (hbits : ∀ p ∈ c.parts s, AreBits (p.1.boolBytes p.2)) (hframe : c.encode msg = .ok frame) :
    ∃ header payload rest unused, splitFrame? s = some ((header, payload ++ unused), rest) ∧
      (m.layout.fields ≠ [] → m.checkLength (payload ++ unused).length = .ok ()) ∧
      readFields m.name m.layout.fields (payload ++ unused) = .ok (msg.values, unused) ∧
      m.writePayload msg.values = .ok payload := by
  obtain ⟨payload, rest, m', unused, hsplit, -, hm', hcheck, hread, hparts⟩ :=
    readFields_of_decode h
  cases hm.symm.trans hm'
  have hl := wellFormed_of_mem hc (byId?_eq_some hm).1
  obtain ⟨m', written, hm', hwritten, -⟩ := encode_eq_ok hframe
  cases hm.symm.trans hm'
  obtain ⟨-, -, out, rfl, hout⟩ := MessageDef.writePayload_eq_ok hwritten
  rw [hparts] at htext hbits
  -- What can be written was read from no more bytes than its field may have.
  have hmost : ∀ p ∈ fieldParts m.name m.layout.fields payload, p.2.length ≤ p.1.maxLen := by
    obtain ⟨hmap, hmatches, -⟩ := readFields_eq_ok hl.fields hread
    have hwellFormed : ∀ p ∈ fieldParts m.name m.layout.fields payload, p.1.WellFormed :=
      fun p hp => hl.fields p.1 (hmap ▸ List.mem_map_of_mem hp)
    exact (writeFields_parts_iff hwellFormed htext hmatches).mp ⟨out, hmap.symm ▸ hout⟩
  obtain ⟨parts, rfl, hagain⟩ := write_of_readFields hl.fields hread hmost htext hbits
  have hsame : parts.flatten = out.flatten := by
    have hwrite := @writeFields_of_forall₂ m.name [] _ _ _ hagain
    rw [writeFields_of_forall₂ hout] at hwrite
    exact (Except.ok.inj hwrite).symm
  rw [hsame] at hsplit hcheck hread
  exact ⟨_, out.flatten, rest, unused, hsplit, hcheck, hread, hwritten⟩

/-- A message that was read from a frame with well-formed text and truth values is written with a
payload that starts the one it was read from. It is the whole payload if the last field does not
show where it ends, or if there are fields and all of them are numbers. -/
theorem payload_of_encode (hc : ofDecls version decls = .ok c) (h : c.decode s = .ok msg)
    (hm : c.byId? msg.type = some m) {header : FrameHeader} {payload rest : Bytes}
    (hsplit : splitFrame? s = some ((header, payload), rest))
    (htext : ∀ p ∈ c.parts s, p.1.HoldsText p.2)
    (hbits : ∀ p ∈ c.parts s, AreBits (p.1.boolBytes p.2)) (hframe : c.encode msg = .ok frame) :
    ∃ header' payload', splitFrame? frame = some ((header', payload'), []) ∧
      payload' <+: payload ∧
      ((∃ f, m.layout.fields.getLast? = some f ∧ ¬f.IsDelimited) ∨
        (m.layout.fields ≠ [] ∧ ∀ f ∈ m.layout.fields, f.IsScalar) → payload' = payload) := by
  obtain ⟨header', payload', rest', unused, hsplit', hcheck, hread, hwritten⟩ :=
    exists_payload_of_encode hc h hm htext hbits hframe
  cases hsplit.symm.trans hsplit'
  have hl := wellFormed_of_mem hc (byId?_eq_some hm).1
  obtain ⟨m', payload'', hm', hwritten', hsplit'⟩ := splitFrame?_of_encode hframe
  cases hm.symm.trans hm'
  cases hwritten.symm.trans hwritten'
  refine ⟨_, payload', hsplit', List.prefix_append payload' unused, fun hall => ?_⟩
  have hunused : unused = [] := by
    rcases hall with ⟨f, hlast, hopen⟩ | ⟨hne, hscalar⟩
    · exact readFields_rest_eq_nil hl.fields hlast hopen hread
    · have hmost := (MessageDef.total_of_checkLength hl (hcheck hne)).2
      exact (readFields_of_fixed hne (fun f hf => hscalar f (List.mem_of_mem_dropLast hf))
        hl.placed hl.fields hread hmost).1
  rw [hunused, List.append_nil]

theorem payload_of_encode_label :
    ∃ header' payload', splitFrame? [0, 3, 1, 5, 0, 0x68, 0x69] = some ((header', payload'), []) ∧
      payload' <+: [0, 0x68, 0x69] ∧ payload' = [0, 0x68, 0x69] := by
  have hparts : labelCatalogue.parts [0, 3, 1, 5, 0, 0x68, 0x69, 0xff]
      = [(⟨"a", 1, 4, .sequence .bytes (some .u8) .plain⟩, [0]),
        (⟨"b", 0, 2, .sequence .utf8 none .plain⟩, [0x68, 0x69])] := by decide
  have hread : labelCatalogue.decode [0, 3, 1, 5, 0, 0x68, 0x69, 0xff]
      = .ok ⟨5, 1, [.bytes [], .text "hi"]⟩ := by cbv
  have hwrite : labelCatalogue.encode ⟨5, 1, [.bytes [], .text "hi"]⟩
      = .ok [0, 3, 1, 5, 0, 0x68, 0x69] := by decide
  have htext : ∀ p ∈ labelCatalogue.parts [0, 3, 1, 5, 0, 0x68, 0x69, 0xff],
      p.1.HoldsText p.2 := by
    intro p hp count format hkind
    rw [hparts] at hp
    rcases List.mem_cons.mp hp with rfl | hp
    · cases hkind
    rw [List.mem_singleton.mp hp] at hkind ⊢
    cases hkind
    exact ⟨['h', 'i'], rfl⟩
  have hbits : ∀ p ∈ labelCatalogue.parts [0, 3, 1, 5, 0, 0x68, 0x69, 0xff],
      AreBits (p.1.boolBytes p.2) := by
    rw [hparts]
    simp [Field.boolBytes, AreBits]
  obtain ⟨header', payload', hsplit, hprefix, hwhole⟩ := payload_of_encode ofDecls_labelDecls hread
    rfl (show splitFrame? _ = some ((⟨3, 1, 5⟩, [0, 0x68, 0x69]), [0xff]) from rfl) htext hbits
    hwrite
  refine ⟨header', payload', hsplit, hprefix, hwhole (Or.inl ⟨_, rfl, ?_⟩)⟩
  exact not_not.mpr rfl

end Catalogue

end WireSchema
