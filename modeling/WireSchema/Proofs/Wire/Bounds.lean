import Mathlib
import WireSchema.Proofs.Wire.Canonical

/-!
# The bounds of single fields

Every field has bounds on its bytes, but only few of them are checked one by one: writing checks the
greatest length of each field, reading that of a field with a count, and the least lengths enter the
bounds on the whole payload alone. So a field can leave its bounds, though not by more than others
make up for.

* `KeepsBounds` — what the checks of a payload leave of the bounds of each field;
* `Catalogue.keepsBounds` — it holds of all fields that are read or written;
* `Catalogue.bounds_not_kept` — but not the bounds themselves, neither in reading nor in writing.
-/

namespace WireSchema

/-! ### Totals -/

/-- A field has as many bytes as it must and may have. -/
def InBounds (p : Field × Bytes) : Prop :=
  p.1.minLen ≤ p.2.length ∧ p.2.length ≤ p.1.maxLen

/-- A sequence of elements, with or without their count. -/
def Field.IsSequence (f : Field) : Prop :=
  ∃ type count format, f.kind = .sequence type count format

/-- The bytes that fields have beyond those that they must have. -/
def excess (parts : List (Field × Bytes)) : ℕ :=
  (parts.map fun p => p.2.length - p.1.minLen).sum

/-- The bytes that fields may have beyond those that they have. -/
def spare (parts : List (Field × Bytes)) : ℕ :=
  (parts.map fun p => p.1.maxLen - p.2.length).sum

theorem partsLength_le_excess (parts : List (Field × Bytes)) :
    partsLength parts ≤ minTotal (parts.map Prod.fst) + excess parts := by
  induction parts with
  | nil => exact Nat.le_refl _
  | cons p parts ih =>
    simp only [partsLength, excess, List.map_cons, List.sum_cons, minTotal_cons] at ih ⊢
    omega

theorem maxTotal_le_spare (parts : List (Field × Bytes)) :
    maxTotal (parts.map Prod.fst) ≤ partsLength parts + spare parts := by
  induction parts with
  | nil => exact Nat.le_refl _
  | cons p parts ih =>
    simp only [partsLength, spare, List.map_cons, List.sum_cons, maxTotal_cons] at ih ⊢
    omega

/-- A field and the others have the bytes of all fields, and their bounds. -/
theorem totals_erase {parts : List (Field × Bytes)} {p : Field × Bytes} (hp : p ∈ parts) :
    partsLength parts = p.2.length + partsLength (parts.erase p) ∧
      minTotal (parts.map Prod.fst) = p.1.minLen + minTotal ((parts.erase p).map Prod.fst) ∧
      maxTotal (parts.map Prod.fst) = p.1.maxLen + maxTotal ((parts.erase p).map Prod.fst) := by
  have hperm := List.perm_cons_erase hp
  refine ⟨?_, ?_, ?_⟩
  · exact (hperm.map fun p => p.2.length).sum_eq
  · exact ((hperm.map Prod.fst).map Field.minLen).sum_eq
  · exact ((hperm.map Prod.fst).map Field.maxLen).sum_eq

/-! ### What is left of the bounds -/

/-- The bytes of a field as far as they are checked alone: a number takes exactly those of its
width, and a field that shows where it ends no more than it may. -/
def PartBounded (p : Field × Bytes) : Prop :=
  (p.1.IsScalar → p.2.length = p.1.maxLen) ∧ (p.1.IsDelimited → p.2.length ≤ p.1.maxLen)

/-- What the checks of a payload leave of the bounds of each field, where so many bytes of the
payload are used by no field. -/
structure KeepsBounds (parts : List (Field × Bytes)) (unused : ℕ) : Prop where
  /-- A field that shows where it ends has at most the bytes it may have. -/
  delimited : ∀ p ∈ parts, p.1.IsDelimited → p.2.length ≤ p.1.maxLen
  /-- The bytes that a field lacks are made up for by other fields or are used by none. -/
  least : ∀ p ∈ parts, p.1.minLen ≤ p.2.length + excess (parts.erase p) + unused
  /-- The bytes that a field has in excess are spared by other fields. -/
  most : ∀ p ∈ parts, p.2.length + unused ≤ p.1.maxLen + spare (parts.erase p)
  /-- A field with only numbers beside it has at most the bytes it may have, and the bytes it must
  have if all bytes are used. -/
  alone : ∀ p ∈ parts, (∀ q ∈ parts.erase p, q.1.IsScalar) →
    p.2.length ≤ p.1.maxLen ∧ (unused = 0 → InBounds p)

theorem Field.IsScalar.minLen_eq {f : Field} (h : f.IsScalar) (hf : f.WellFormed) :
    f.minLen = f.maxLen := by
  obtain ⟨kind, hkind⟩ := h
  obtain ⟨-, hmin, hmax⟩ := hf.scalar hkind
  exact hmin.trans hmax.symm

/-- Numbers make up for nothing. -/
theorem excess_spare_of_scalar {parts : List (Field × Bytes)}
    (hfields : ∀ p ∈ parts, p.1.WellFormed) (hparts : ∀ p ∈ parts, PartBounded p)
    (hscalar : ∀ p ∈ parts, p.1.IsScalar) : excess parts = 0 ∧ spare parts = 0 := by
  have hexact : ∀ p ∈ parts, p.2.length = p.1.minLen ∧ p.2.length = p.1.maxLen := by
    intro p hp
    have hlength := (hparts p hp).1 (hscalar p hp)
    exact ⟨hlength.trans ((hscalar p hp).minLen_eq (hfields p hp)).symm, hlength⟩
  constructor
  · refine List.sum_eq_zero fun n hn => ?_
    obtain ⟨p, hp, rfl⟩ := List.mem_map.mp hn
    rw [(hexact p hp).1, Nat.sub_self]
  · refine List.sum_eq_zero fun n hn => ?_
    obtain ⟨p, hp, rfl⟩ := List.mem_map.mp hn
    rw [(hexact p hp).2, Nat.sub_self]

/-- What the check of a whole payload says of each of its fields. -/
theorem keepsBounds_of_total {parts : List (Field × Bytes)} {unused : ℕ}
    (hfields : ∀ p ∈ parts, p.1.WellFormed) (hparts : ∀ p ∈ parts, PartBounded p)
    (htotal : parts ≠ [] → minTotal (parts.map Prod.fst) ≤ partsLength parts + unused ∧
      partsLength parts + unused ≤ maxTotal (parts.map Prod.fst)) :
    KeepsBounds parts unused := by
  have hleast : ∀ p ∈ parts, p.1.minLen ≤ p.2.length + excess (parts.erase p) + unused := by
    intro p hp
    have hmin := (htotal (List.ne_nil_of_mem hp)).1
    obtain ⟨hlength, hmins, -⟩ := totals_erase hp
    have hothers := partsLength_le_excess (parts.erase p)
    omega
  have hmost : ∀ p ∈ parts, p.2.length + unused ≤ p.1.maxLen + spare (parts.erase p) := by
    intro p hp
    have hmax := (htotal (List.ne_nil_of_mem hp)).2
    obtain ⟨hlength, -, hmaxs⟩ := totals_erase hp
    have hothers := maxTotal_le_spare (parts.erase p)
    omega
  refine ⟨fun p hp => (hparts p hp).2, hleast, hmost, fun p hp hscalar => ?_⟩
  obtain ⟨hexcess, hspare⟩ := excess_spare_of_scalar
    (fun q hq => hfields q (List.mem_of_mem_erase hq))
    (fun q hq => hparts q (List.mem_of_mem_erase hq)) hscalar
  have hlow := hleast p hp
  have hhigh := hmost p hp
  rw [hexcess] at hlow
  rw [hspare] at hhigh
  exact ⟨by omega, fun hunused => ⟨by omega, by omega⟩⟩

/-! ### Bytes that are read and bytes that are written -/

theorem partBounded_of_read {message : String} {f : Field} {v : Value} {part rest : Bytes}
    (hf : f.WellFormed) (h : f.read message (part ++ rest) = .ok (v, rest)) :
    PartBounded (f, part) := by
  refine ⟨fun hscalar => ?_, ?_⟩
  · have hlength := Field.IsScalar.length_of_read hscalar hf h
    rw [List.length_append] at hlength
    exact Nat.add_right_cancel hlength
  · obtain ⟨part', hpart, -, -, hmost⟩ := Field.read_eq_ok hf h
    rw [List.append_cancel_right hpart]
    exact hmost

theorem partBounded_of_readFields {message : String} {fields : List Field} {values : List Value}
    {s rest : Bytes} (hfields : ∀ f ∈ fields, f.WellFormed)
    (h : readFields message fields s = .ok (values, rest)) :
    ∀ p ∈ fieldParts message fields s, PartBounded p := by
  induction fields generalizing s values with
  | nil => exact fun p hp => absurd hp List.not_mem_nil
  | cons f fields ih =>
    rw [List.forall_mem_cons] at hfields
    obtain ⟨v, vs, tail, rfl, hv, hvs⟩ := readFields_cons_eq_ok h
    obtain ⟨part, rfl, -⟩ := Field.read_eq_ok hfields.1 hv
    rw [fieldParts_cons hv, List.forall_mem_cons]
    exact ⟨partBounded_of_read hfields.1 hv, ih hfields.2 hvs⟩

theorem Field.IsScalar.length_of_write {message : String} {f : Field} {v : Value} {s : Bytes}
    (hscalar : f.IsScalar) (hf : f.WellFormed) (h : f.write message v = .ok s) :
    s.length = f.maxLen := by
  obtain ⟨kind, hkind⟩ := hscalar
  have hlength := (Field.length_of_write hf h).1
  rw [hlength, lengthOf_scalar hkind, (hf.scalar hkind).2.2]

/-- What is written of each field is no more than it may have. -/
theorem partBounded_of_writeFields {message : String} {fields : List Field} {values : List Value}
    {out : List Bytes} (hfields : ∀ f ∈ fields, f.WellFormed)
    (h : List.Forall₂ (fun p part => p.1.write message p.2 = .ok part) (fields.zip values) out) :
    ∀ p ∈ fields.zip out, PartBounded p ∧ p.2.length ≤ p.1.maxLen := by
  induction fields generalizing values out with
  | nil => exact fun p hp => absurd hp List.not_mem_nil
  | cons f fields ih =>
    cases values with
    | nil =>
      cases h
      exact fun p hp => absurd hp List.not_mem_nil
    | cons v values =>
      rw [List.zip_cons_cons, List.forall₂_cons_left_iff] at h
      obtain ⟨part, out', hpart, hout, rfl⟩ := h
      rw [List.forall_mem_cons] at hfields
      rw [List.zip_cons_cons, List.forall_mem_cons]
      have hlength := Field.length_of_write hfields.1 hpart
      have hmost : part.length ≤ f.maxLen := hlength.1.le.trans hlength.2
      exact ⟨⟨⟨fun hscalar => hscalar.length_of_write hfields.1 hpart, fun _ => hmost⟩, hmost⟩,
        ih hfields.2 hout⟩

theorem partsLength_zip {fields : List Field} {out : List Bytes}
    (hlength : out.length = fields.length) :
    partsLength (fields.zip out) = out.flatten.length := by
  have hsnd : (fields.zip out).map Prod.snd = out := List.map_snd_zip hlength.le
  calc partsLength (fields.zip out) = (((fields.zip out).map Prod.snd).map List.length).sum := by
        rw [partsLength, List.map_map]
        rfl
    _ = out.flatten.length := by rw [hsnd, List.length_flatten]

/-! ### Frames -/

namespace Catalogue

variable {version : String} {decls : List MessageDecl} {c : Catalogue} {s frame : Bytes}
  {msg : Message}

/-- What reading leaves of the bounds of the fields. -/
theorem keepsBounds_of_decode (hc : ofDecls version decls = .ok c) (h : c.decode s = .ok msg)
    {header : FrameHeader} {payload rest : Bytes}
    (hsplit : splitFrame? s = some ((header, payload), rest)) :
    KeepsBounds (c.parts s) (payload.length - partsLength (c.parts s)) := by
  obtain ⟨payload', rest', m, unused, hsplit', -, hm, hcheck, hread, hparts⟩ :=
    readFields_of_decode h
  cases hsplit.symm.trans hsplit'
  have hl := wellFormed_of_mem hc (byId?_eq_some hm).1
  obtain ⟨hmap, -, hle⟩ := readFields_eq_ok hl.fields hread
  rw [hparts]
  refine keepsBounds_of_total (fun p hp => hl.fields p.1 (hmap ▸ List.mem_map_of_mem hp))
    (partBounded_of_readFields hl.fields hread) fun hne => ?_
  have hfields : m.layout.fields ≠ [] := by
    rw [← hmap]
    exact mt List.map_eq_nil_iff.mp hne
  rw [hmap, Nat.add_sub_cancel' hle]
  exact MessageDef.total_of_checkLength hl (hcheck hfields)

/-- What writing leaves of the bounds of the fields. -/
theorem keepsBounds_of_encode (hc : ofDecls version decls = .ok c)
    (h : c.encode msg = .ok frame) :
    ∃ m header out, c.byId? msg.type = some m ∧
      splitFrame? frame = some ((header, out.flatten), []) ∧
      List.Forall₂ (fun p part => p.1.write m.name p.2 = .ok part)
        (m.layout.fields.zip msg.values) out ∧
      KeepsBounds (m.layout.fields.zip out) 0 ∧
      ∀ p ∈ m.layout.fields.zip out, p.2.length ≤ p.1.maxLen := by
  obtain ⟨m, payload, hm, hwritten, hsplit⟩ := splitFrame?_of_encode h
  have hl := wellFormed_of_mem hc (byId?_eq_some hm).1
  obtain ⟨hvalues, hcheck, out, rfl, hout⟩ := MessageDef.writePayload_eq_ok hwritten
  have hlength : out.length = m.layout.fields.length := by
    rw [← hout.length_eq, List.length_zip, hvalues, Nat.min_self]
  have hparts := partBounded_of_writeFields hl.fields hout
  refine ⟨m, _, out, hm, hsplit, hout, keepsBounds_of_total
    (fun p hp => hl.fields p.1 (List.of_mem_zip hp).1) (fun p hp => (hparts p hp).1)
    fun _ => ?_, fun p hp => (hparts p hp).2⟩
  rw [List.map_fst_zip hlength.ge, partsLength_zip hlength]
  exact MessageDef.total_of_checkLength hl hcheck

/-- What reading and writing leave of the bounds of each field. Writing gives no field more bytes
than it may have, and all bytes of a payload that is written are used. -/
theorem keepsBounds (hc : ofDecls version decls = .ok c) :
    (∀ s msg header payload rest, c.decode s = .ok msg →
      splitFrame? s = some ((header, payload), rest) →
        KeepsBounds (c.parts s) (payload.length - partsLength (c.parts s))) ∧
      ∀ msg frame, c.encode msg = .ok frame →
        ∃ m header out, c.byId? msg.type = some m ∧
          splitFrame? frame = some ((header, out.flatten), []) ∧
          List.Forall₂ (fun p part => p.1.write m.name p.2 = .ok part)
            (m.layout.fields.zip msg.values) out ∧
          KeepsBounds (m.layout.fields.zip out) 0 ∧
          ∀ p ∈ m.layout.fields.zip out, p.2.length ≤ p.1.maxLen :=
  ⟨fun _ _ _ _ _ h hsplit => keepsBounds_of_decode hc h hsplit,
    fun _ _ h => keepsBounds_of_encode hc h⟩

/-- Two or three bytes with a count, and text of at most two bytes after them. -/
def tagDecls : List MessageDecl :=
  [{ name := "Tag", id := 1
     body := .fields [.long "a bytes" none { minLen := some 2, maxLen := some 3 },
       .long "b utf8" none { maxLen := some 2 }] }]

/-- The catalogue of `tagDecls`. -/
def tagCatalogue : Catalogue :=
  ⟨"1", [⟨"Tag", "tag", 1, "", none,
    ⟨[⟨"a", 3, 4, .sequence .bytes (some .u8) .plain⟩, ⟨"b", 0, 2, .sequence .utf8 none .plain⟩],
      3, 6⟩⟩]⟩

theorem ofDecls_tagDecls : ofDecls "1" tagDecls = .ok tagCatalogue := by
  cbv

theorem decode_tag : tagCatalogue.decode [0, 4, 1, 5, 0, 0x61, 0x62, 0x63]
    = .ok ⟨5, 1, [.bytes [], .text "abc"]⟩ := by
  cbv

theorem parts_tag : tagCatalogue.parts [0, 4, 1, 5, 0, 0x61, 0x62, 0x63]
    = [(⟨"a", 3, 4, .sequence .bytes (some .u8) .plain⟩, [0]),
      (⟨"b", 0, 2, .sequence .utf8 none .plain⟩, [0x61, 0x62, 0x63])] := by
  decide

theorem encode_tag : tagCatalogue.encode ⟨5, 1, [.bytes [], .text "hi"]⟩
    = .ok [0, 3, 1, 5, 0, 0x68, 0x69] := by
  decide

theorem keepsBounds_tag :
    KeepsBounds (tagCatalogue.parts [0, 4, 1, 5, 0, 0x61, 0x62, 0x63]) 0 ∧
      ∃ m out, tagCatalogue.byId? 1 = some m ∧ out.flatten = [0, 0x68, 0x69] ∧
        KeepsBounds (m.layout.fields.zip out) 0 := by
  have hkeeps := keepsBounds ofDecls_tagDecls
  have hread := hkeeps.1 _ _ _ _ _ decode_tag
    (show splitFrame? _ = some ((⟨4, 1, 5⟩, [0, 0x61, 0x62, 0x63]), []) from rfl)
  have hused : [0, 0x61, 0x62, 0x63].length
      - partsLength (tagCatalogue.parts [0, 4, 1, 5, 0, 0x61, 0x62, 0x63]) = 0 := by
    rw [parts_tag]
    rfl
  obtain ⟨m, header, out, hm, hsplit, -, hwritten, -⟩ := hkeeps.2 _ _ encode_tag
  have hpayload : splitFrame? [0, 3, 1, 5, 0, 0x68, 0x69]
      = some ((⟨3, 1, 5⟩, [0, 0x68, 0x69]), []) := rfl
  have hout := congrArg (fun frame => frame.1.2) (Option.some.inj (hpayload.symm.trans hsplit))
  exact ⟨hused ▸ hread, m, out, hm, hout.symm, hwritten⟩

/-- The bounds of sequences are not kept. In reading, text of three bytes passes where two are
allowed, and makes up for the bytes that another field lacks; in writing, allowed text does so. -/
theorem bounds_not_kept :
    (¬∀ (version : String) (decls : List MessageDecl) (c : Catalogue) (s : Bytes) (msg : Message),
      ofDecls version decls = .ok c → c.decode s = .ok msg →
        (∀ p ∈ c.parts s, p.1.HoldsText p.2) →
          ∀ p ∈ c.parts s, p.1.IsSequence → InBounds p) ∧
      ¬∀ (version : String) (decls : List MessageDecl) (c : Catalogue) (msg : Message)
        (frame : Bytes) (m : MessageDef) (out : List Bytes), ofDecls version decls = .ok c →
          c.encode msg = .ok frame → c.byId? msg.type = some m →
            List.Forall₂ (fun p part => p.1.write m.name p.2 = .ok part)
              (m.layout.fields.zip msg.values) out →
                ∀ p ∈ m.layout.fields.zip out, p.1.IsSequence → InBounds p := by
  constructor
  · intro h
    have hbounds := h _ _ _ _ _ ofDecls_tagDecls decode_tag
    rw [parts_tag] at hbounds
    have htext : ∀ p ∈ [((⟨"a", 3, 4, .sequence .bytes (some .u8) .plain⟩ : Field), ([0] : Bytes)),
        (⟨"b", 0, 2, .sequence .utf8 none .plain⟩, [0x61, 0x62, 0x63])], p.1.HoldsText p.2 := by
      intro p hp count format hkind
      rcases List.mem_cons.mp hp with rfl | hp
      · cases hkind
      rw [List.mem_singleton.mp hp] at hkind ⊢
      cases hkind
      exact ⟨['a', 'b', 'c'], rfl⟩
    have hmost := (hbounds htext _ (List.mem_cons_of_mem _ List.mem_cons_self) ⟨_, _, _, rfl⟩).2
    exact absurd hmost (by decide)
  · intro h
    have hleast := (h _ _ _ _ _ _ [[0], [0x68, 0x69]] ofDecls_tagDecls encode_tag rfl
      (.cons (by decide) (.cons (by decide) .nil)) _ List.mem_cons_self ⟨_, _, _, rfl⟩).1
    exact absurd hleast (by decide)

end Catalogue

end WireSchema
