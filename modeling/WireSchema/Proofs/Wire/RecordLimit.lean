import Mathlib
import WireSchema.Proofs.Schema.Totals
import WireSchema.Proofs.Wire.Bounds
import WireSchema.Proofs.Wire.Conformance

/-!
# How many records a message holds

Behind numbers alone, records have what the numbers leave of a payload. The limit on their number is
met three times: it is the number that the schema gives, writing an array of records compares with
it, and the length of the payload is bounded as a whole. All of these are the same limit, which is
the greatest number of records that fit a payload together with the numbers, and reading does not
exceed it either.

* `Layout.le_maxItems_iff` — the limit that the schema gives is what fits a payload;
* `Layout.fixedLen_eq`, `lengthOf_table` — the bytes of the numbers, and those of a payload;
* `writePayload_table_iff` — with numbers in range, the number of records alone decides about
  writing;
* `Catalogue.lengthOf_le_of_decode` — what was read fits a payload;
* `Catalogue.maxItems_exact` — the limit in writing, in reading, and as the greatest number that
  fits.
-/

namespace WireSchema

/-! ### Numbers -/

/-- The value of a number takes the bytes of its width, whatever it is. -/
theorem Field.IsScalar.lengthOf_eq {f : Field} (h : f.IsScalar) (hf : f.WellFormed) (v : Value) :
    f.lengthOf v = f.minLen := by
  obtain ⟨kind, hkind⟩ := h
  rw [lengthOf_scalar hkind, (hf.scalar hkind).2.1]

/-- The values of numbers take their least total. -/
theorem sum_lengthOf_scalars {numbers : List Field} {values : List Value}
    (hwf : ∀ g ∈ numbers, g.WellFormed) (hscalar : ∀ g ∈ numbers, g.IsScalar)
    (hlength : numbers.length = values.length) :
    (List.zipWith Field.lengthOf numbers values).sum = minTotal numbers := by
  induction numbers generalizing values with
  | nil => rfl
  | cons g numbers ih =>
    rw [List.forall_mem_cons] at hwf hscalar
    cases values with
    | nil => cases hlength
    | cons v values =>
      have hrest := ih hwf.2 hscalar.2 (Nat.succ.inj hlength)
      rw [List.zipWith_cons_cons, List.sum_cons, minTotal_cons, hrest,
        hscalar.1.lengthOf_eq hwf.1]

/-- Where the fields of variable length may be empty, the fixed length is the least one. -/
theorem Layout.fixedLen_eq {l : Layout} (h : ∀ f ∈ l.fields, f.isFixed = false → f.minLen = 0) :
    l.fixedLen = minTotal l.fields := by
  have hfrom : ∀ (fields : List Field) (n : ℕ),
      (∀ f ∈ fields, f.isFixed = false → f.minLen = 0) →
        fields.foldl (fun n f => if f.isFixed then n + f.minLen else n) n
          = n + minTotal fields := by
    intro fields
    induction fields with
    | nil => intro n _; rfl
    | cons f fields ih =>
      intro n hfields
      rw [List.forall_mem_cons] at hfields
      rw [List.foldl_cons, ih _ hfields.2, minTotal_cons]
      cases hfixed : f.isFixed with
      | true => simp only [if_true, Nat.add_assoc]
      | false => simp [hfields.1 hfixed]
  rw [fixedLen, hfrom _ _ h, Nat.zero_add]

/-! ### Records behind numbers -/

section Table

variable {l : Layout} {numbers : List Field} {f : Field} {recordName : String}
  {columns : List Column} {itemLen maxItems : ℕ} (hl : l.WellFormed)
  (hfields : l.fields = numbers ++ [f]) (hnumbers : ∀ g ∈ numbers, g.IsScalar)
  (hkind : f.kind = .records recordName columns itemLen maxItems)

include hl hfields hkind

/-- What is known of an array of records at the end of a layout. -/
theorem Layout.recordsShape_of_last :
    RecordsShape columns itemLen maxItems f.minLen f.maxLen ∧ (∀ g ∈ numbers, g.WellFormed) ∧
      minTotal numbers ≤ maxPayload ∧ maxItems = (maxPayload - minTotal numbers) / itemLen := by
  have hwf := hl.fields
  have hplaced := (hfields ▸ hl.placed).placed (Nat.zero_le _)
  rw [hfields, List.forall_mem_append, List.forall_mem_singleton] at hwf
  rw [Nat.zero_add, Nat.zero_add] at hplaced
  obtain ⟨-, htotals, hitems⟩ := hplaced.records hkind
  exact ⟨hwf.2.records hkind, hwf.1, htotals ▸ Nat.min_le_right _ _, hitems⟩

/-- The limit on records is what fits a payload behind the fields before them. -/
theorem Layout.le_maxItems_iff {n : ℕ} :
    n ≤ maxItems ↔ minTotal numbers + n * itemLen ≤ maxPayload := by
  obtain ⟨hshape, -, hroom, hitems⟩ := recordsShape_of_last hl hfields hkind
  rw [hitems, Nat.le_div_iff_mul_le hshape.itemLen_pos]
  omega

include hnumbers

/-- The bytes of numbers and records. -/
theorem lengthOf_table {values : List Value} {records : List (List ℤ)}
    (hlength : numbers.length = values.length) :
    (List.zipWith Field.lengthOf (numbers ++ [f]) (values ++ [.records records])).sum
      = minTotal numbers + records.length * itemLen := by
  obtain ⟨-, hwf, -⟩ := Layout.recordsShape_of_last hl hfields hkind
  rw [List.zipWith_append hlength, List.sum_append, sum_lengthOf_scalars hwf hnumbers hlength]
  simp [Field.lengthOf_records hkind]

/-- The bounds on the payload are those of no records and of as many as the limit allows. -/
theorem Layout.bounds_table :
    l.minLen = minTotal numbers ∧ l.maxLen = minTotal numbers + maxItems * itemLen := by
  obtain ⟨hshape, hwf, -⟩ := recordsShape_of_last hl hfields hkind
  have hfits := (le_maxItems_iff hl hfields hkind).mp (Nat.le_refl maxItems)
  have hfixed : minTotal numbers = maxTotal numbers :=
    (forall_fixed_iff hwf).mp fun g hg => (hnumbers g hg).minLen_eq (hwf g hg)
  constructor
  · rw [hl.minLen_eq, hfields, minTotal_append, minTotal_cons, hshape.minLen_eq]
    rfl
  · rw [hl.maxLen_eq, hfields, maxTotal_append, maxTotal_cons, hshape.maxLen_eq, maxTotal_nil,
      Nat.add_zero, ← hfixed, Nat.min_eq_left hfits]

theorem Layout.fixedLen_table : l.fixedLen = minTotal numbers := by
  obtain ⟨hshape, hwf, -⟩ := recordsShape_of_last hl hfields hkind
  rw [fixedLen_eq, hfields, minTotal_append, minTotal_cons, hshape.minLen_eq]
  · rfl
  rw [hfields, List.forall_mem_append, List.forall_mem_singleton]
  refine ⟨fun g hg hvariable => ?_, fun _ => hshape.minLen_eq⟩
  rw [Field.isFixed, (hnumbers g hg).minLen_eq (hwf g hg), beq_self_eq_true] at hvariable
  cases hvariable

/-- With values that can be written in the fields before them, records in range are written exactly
if there are not too many. Either of the two checks, of the records and of the payload, excludes
more. -/
theorem MessageDef.writePayload_table_iff {m : MessageDef} (hm : m.layout = l)
    {values : List Value} {records : List (List ℤ)}
    (hvalues : List.Forall₂ (fun g v => g.Conforms v ∨ g.HoldsNumber v) numbers values)
    (hrecords : ∀ record ∈ records,
      List.Forall₂ (fun column n => column.kind.InRange n) columns record) :
    (∃ payload, m.writePayload (values ++ [.records records]) = .ok payload) ↔
      records.length ≤ maxItems := by
  obtain ⟨hshape, -⟩ := Layout.recordsShape_of_last hl hfields hkind
  obtain ⟨hmin, hmax⟩ := Layout.bounds_table hl hfields hnumbers hkind
  rw [MessageDef.writePayload_iff (hm ▸ hl), MessageDef.lengthOf, hm, hfields,
    lengthOf_table hl hfields hnumbers hkind hvalues.length_eq, hmin, hmax]
  constructor
  · rintro ⟨-, -, hmost⟩
    exact Nat.le_of_mul_le_mul_right (Nat.le_of_add_le_add_left hmost) hshape.itemLen_pos
  · intro hmany
    refine ⟨?_, Nat.le_add_right _ _, Nat.add_le_add_left (Nat.mul_le_mul_right _ hmany) _⟩
    exact forall₂_concat_left_iff.mpr
      ⟨values, _, hvalues, Or.inl (.records hkind hrecords hmany), rfl⟩

end Table

/-! ### What is read -/

theorem Field.holdsText_of_not_isSequence {f : Field} {part : Bytes} (h : ¬f.IsSequence) :
    f.HoldsText part :=
  fun _ _ hkind => absurd ⟨_, _, _, hkind⟩ h

theorem Field.IsScalar.not_isSequence {f : Field} (h : f.IsScalar) : ¬f.IsSequence := by
  obtain ⟨kind, hkind⟩ := h
  rintro ⟨type, count, format, hsequence⟩
  rw [hkind] at hsequence
  cases hsequence

/-- The bytes that fields with well-formed text were read from are those of their values. -/
theorem partsLength_eq_lengthOf {parts : List (Field × Bytes)} {values : List Value}
    (h : List.Forall₂ PartMatches parts values) (htext : ∀ p ∈ parts, p.1.HoldsText p.2) :
    partsLength parts = (List.zipWith Field.lengthOf (parts.map Prod.fst) values).sum := by
  induction h with
  | nil => rfl
  | @cons p v parts values hv _ ih =>
    rw [List.forall_mem_cons] at htext
    have hrest := ih htext.2
    rw [partsLength] at hrest ⊢
    rw [List.map_cons, List.sum_cons, List.map_cons, List.zipWith_cons_cons, List.sum_cons,
      hv.2 htext.1, hrest]

namespace Catalogue

variable {version : String} {decls : List MessageDecl} {c : Catalogue} {s : Bytes} {msg : Message}
  {m : MessageDef}

/-- What was read without text fits a payload. -/
theorem lengthOf_le_of_decode (hc : ofDecls version decls = .ok c) (h : c.decode s = .ok msg)
    (hm : c.byId? msg.type = some m) (hplain : ∀ f ∈ m.layout.fields, ¬f.IsSequence) :
    List.Forall₂ Field.Matches m.layout.fields msg.values ∧ m.lengthOf msg.values ≤ maxPayload := by
  obtain ⟨m', hm', hmap, hparts, hmost⟩ := decode_eq_ok hc h
  cases hm.symm.trans hm'
  have htext : ∀ p ∈ c.parts s, p.1.HoldsText p.2 := by
    intro p hp
    exact Field.holdsText_of_not_isSequence (hplain p.1 (hmap ▸ List.mem_map_of_mem hp))
  rw [partsLength_eq_lengthOf hparts htext, hmap] at hmost
  refine ⟨?_, hmost⟩
  rw [← hmap, List.forall₂_map_left_iff]
  exact hparts.imp fun _ _ hv => hv.1

section Table

variable {numbers : List Field} {f : Field} {recordName : String} {columns : List Column}
  {itemLen maxItems : ℕ}

/-- What was read from numbers and records has no more records than the limit allows. -/
theorem records_of_decode (hc : ofDecls version decls = .ok c) (h : c.decode s = .ok msg)
    (hm : c.byId? msg.type = some m) (hfields : m.layout.fields = numbers ++ [f])
    (hnumbers : ∀ g ∈ numbers, g.IsScalar)
    (hkind : f.kind = .records recordName columns itemLen maxItems) :
    ∃ values records, msg.values = values ++ [.records records] ∧ records.length ≤ maxItems := by
  have hl := wellFormed_of_mem hc (byId?_eq_some hm).1
  have hplain : ∀ g ∈ m.layout.fields, ¬g.IsSequence := by
    rw [hfields, List.forall_mem_append, List.forall_mem_singleton]
    refine ⟨fun g hg => (hnumbers g hg).not_isSequence, ?_⟩
    rintro ⟨type, count, format, hsequence⟩
    rw [hkind] at hsequence
    cases hsequence
  obtain ⟨hmatches, hmost⟩ := lengthOf_le_of_decode hc h hm hplain
  rw [hfields] at hmatches
  obtain ⟨values, v, hvalues, hv, hall⟩ := forall₂_concat_left_iff.mp hmatches
  unfold Field.Matches at hv
  rw [hkind] at hv
  cases v with
  | records records =>
    refine ⟨values, records, hall, ?_⟩
    rw [Layout.le_maxItems_iff hl hfields hkind,
      ← lengthOf_table hl hfields hnumbers hkind hvalues.length_eq, ← hall, ← hfields]
    exact hmost
  | _ => exact hv.elim

/-- Where a type has records behind numbers alone, the limit on records is the greatest number of
them that fit a payload together with the numbers. Exactly the messages with no more records can be
written, whatever the numbers are, and none with more are read. -/
theorem maxItems_exact (hc : ofDecls version decls = .ok c) (hm : m ∈ c.messages)
    (hfields : m.layout.fields = numbers ++ [f]) (hnumbers : ∀ g ∈ numbers, g.IsScalar)
    (hkind : f.kind = .records recordName columns itemLen maxItems) :
    ∃ most, m.layout.maxItems? = some most ∧
      IsGreatest {n | m.layout.fixedLen + n * itemLen ≤ maxPayload} most ∧
        (∀ (userId : UInt8) (values : List Value) (records : List (List ℤ)),
          List.Forall₂ (fun g v => g.Conforms v ∨ g.HoldsNumber v) numbers values →
            (∀ record ∈ records,
              List.Forall₂ (fun column n => column.kind.InRange n) columns record) →
              ((∃ frame, c.encode ⟨userId, m.id, values ++ [.records records]⟩ = .ok frame) ↔
                records.length ≤ most)) ∧
          ∀ (s : Bytes) (msg : Message), msg.type = m.id → c.decode s = .ok msg →
            ∃ values records, msg.values = values ++ [.records records] ∧
              records.length ≤ most := by
  have hl := wellFormed_of_mem hc hm
  have hfound := byId?_of_mem hc hm
  have hfixed := Layout.fixedLen_table hl hfields hnumbers hkind
  refine ⟨maxItems, ?_, ⟨?_, ?_⟩, ?_, ?_⟩
  · have hlast : m.layout.recordsField? = some f := by
      rw [Layout.recordsField?, hfields, List.getLast?_concat, Option.filter_some, Field.isRecords,
        hkind]
      rfl
    rw [Layout.maxItems?, hlast, Option.bind_some, Field.maxItems?, hkind]
  · rw [Set.mem_ofPred_eq, hfixed]
    exact (Layout.le_maxItems_iff hl hfields hkind).mp (Nat.le_refl _)
  · intro n hn
    rw [Set.mem_ofPred_eq, hfixed] at hn
    exact (Layout.le_maxItems_iff hl hfields hkind).mpr hn
  · intro userId values records hvalues hrecords
    rw [encode_iff_writePayload,
      ← MessageDef.writePayload_table_iff hl hfields hnumbers hkind rfl hvalues hrecords]
    constructor
    · rintro ⟨m', payload, hm', hpayload⟩
      cases hfound.symm.trans hm'
      exact ⟨payload, hpayload⟩
    · rintro ⟨payload, hpayload⟩
      exact ⟨m, payload, hfound, hpayload⟩
  · intro s msg htype h
    exact records_of_decode hc h (htype ▸ hfound) hfields hnumbers hkind

end Table

/-- Behind a truth value, 32767 records of two bytes are written and one more is not. -/
theorem maxItems_exact_dots :
    (∃ frame, dotsCatalogue.encode
        ⟨9, 4, [.bool true] ++ [.records (List.replicate 32767 [-2, 1])]⟩ = .ok frame) ∧
      ¬∃ frame, dotsCatalogue.encode
        ⟨9, 4, [.bool true] ++ [.records (List.replicate 32768 [-2, 1])]⟩ = .ok frame := by
  have hnumbers : ∀ g ∈ [Field.ofScalar "on" (.integer .bool .plain)], g.IsScalar := by
    intro g hg
    rw [List.mem_singleton.mp hg]
    exact ⟨_, rfl⟩
  obtain ⟨most, hmost, -, hencode, -⟩ :=
    maxItems_exact ofDecls_dotsDecls List.mem_cons_self rfl hnumbers rfl
  have hlimit : ∀ n, (∃ frame, dotsCatalogue.encode
      ⟨9, 4, [.bool true] ++ [.records (List.replicate n [-2, 1])]⟩ = .ok frame) ↔ n ≤ most := by
    intro n
    rw [hencode 9 [.bool true], List.length_replicate]
    · exact .cons (Or.inl (.bool true rfl)) .nil
    intro record hrecord
    rw [List.eq_of_mem_replicate hrecord]
    exact .cons (ScalarKind.holds_iff_inRange.mp rfl)
      (.cons (ScalarKind.holds_iff_inRange.mp rfl) .nil)
  cases hmost
  rw [hlimit, hlimit]
  decide

end Catalogue

end WireSchema
