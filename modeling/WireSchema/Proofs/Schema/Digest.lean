import Mathlib
import WireSchema.Proofs.Json.Injective
import WireSchema.Proofs.Utf8
import WireSchema.Schema.Digest

/-!
# The digest tells the catalogue

The text that a checksum is taken of names all of a catalogue: two catalogues with one digest have
the same version and the same messages, down to the names, bounds and formats of their fields. The
argument goes from the leaves up: each type of the schema is told by its JSON value, because its
constructors have tags of their own and every component is among the members, and a JSON value is
told by its text.

* `Format.toJson_injective`, `ScalarKind.members_injective`, `Column.toJson_injective`,
  `FieldKind.members_injective`, `Field.toJson_injective`, `Layout.toJson_injective`,
  `MessageDef.toJson_injective` — the model of each part of a catalogue tells the part;
* `Catalogue.digest_injective` — the text tells the catalogue;
* `Catalogue.digest_eq_iff` — and so do the bytes that the checksum is taken of.
-/

namespace WireSchema

attribute [ext] Divisor Column Field Layout MessageDef Catalogue

/-! ### Names of types -/

/-- A naming from which the named can be looked up again gives no name twice. -/
theorem injective_of_ofName? {α : Type} {name : α → String} {ofName? : String → Option α}
    (h : ∀ a, ofName? (name a) = some a) : Function.Injective name := by
  intro a b hab
  have ha := h a
  rw [hab, h b] at ha
  exact (Option.some.inj ha).symm

theorem IntType.name_injective : Function.Injective IntType.name :=
  injective_of_ofName? IntType.ofName?_name

theorem SeqType.name_injective : Function.Injective SeqType.name :=
  injective_of_ofName? SeqType.ofName?_name

theorem CountType.name_injective : Function.Injective CountType.name :=
  injective_of_ofName? CountType.ofName?_name

theorem ByteWidth.bytes_injective : Function.Injective ByteWidth.bytes := by
  intro w w' h
  cases w <;> cases w' <;> first | rfl | cases h

/-! ### Scalars -/

theorem Json.string_injective : Function.Injective Json.string :=
  fun _ _ => Json.string.inj

theorem Format.toJson_injective : Function.Injective Format.toJson := by
  intro f f' h
  cases f with
  | plain => cases f' <;> simp [toJson] at h ⊢
  | hex => cases f' <;> simp [toJson] at h ⊢
  | div d =>
    cases f' with
    | div d' =>
      simp only [toJson, Json.object.injEq, List.cons.injEq, Prod.mk.injEq, Json.number.injEq,
        true_and, and_true] at h
      rw [Divisor.ext h]
    | _ => simp [toJson] at h

theorem ScalarKind.members_injective : Function.Injective ScalarKind.members := by
  intro kind kind' h
  cases kind with
  | integer type format =>
    cases kind' with
    | integer type' format' =>
      simp only [members, List.cons.injEq, Prod.mk.injEq, Json.string.injEq, true_and,
        and_true] at h
      rw [IntType.name_injective h.1, Format.toJson_injective h.2]
    | flags names' width' => simp [members] at h
  | flags names width =>
    cases kind' with
    | integer type' format' => simp [members] at h
    | flags names' width' =>
      simp only [members, List.cons.injEq, Prod.mk.injEq, Json.array.injEq, Json.number.injEq,
        true_and, and_true] at h
      rw [List.map_injective_iff.mpr Json.string_injective h.1, ByteWidth.bytes_injective h.2]

/-! ### Fields -/

/-- The model of a field tells its name, its bounds and the members of its kind. -/
theorem fieldJson_inj {name name' : String} {minLen minLen' maxLen maxLen' : ℕ}
    {kind kind' : List (String × Json)}
    (h : fieldJson name minLen maxLen kind = fieldJson name' minLen' maxLen' kind') :
    name = name' ∧ minLen = minLen' ∧ maxLen = maxLen' ∧ kind = kind' := by
  simpa [fieldJson] using h

theorem Column.toJson_injective : Function.Injective Column.toJson := by
  intro c c' h
  obtain ⟨hname, -, -, hkind⟩ := fieldJson_inj h
  exact Column.ext hname (ScalarKind.members_injective hkind)

/-- The model of a count, or of none, tells it. -/
theorem countJson_inj {count count' : Option CountType}
    (h : (match count with
        | some t => Json.string t.name
        | none => .null) = match count' with
        | some t => .string t.name
        | none => .null) : count = count' := by
  cases count with
  | none =>
    cases count' with
    | none => rfl
    | some t' => cases h
  | some t =>
    cases count' with
    | none => cases h
    | some t' => rw [CountType.name_injective (Json.string.inj h)]

theorem FieldKind.members_injective : Function.Injective FieldKind.members := by
  intro kind kind' h
  cases kind with
  | scalar kind =>
    cases kind' with
    | scalar kind' => exact congrArg scalar (ScalarKind.members_injective h)
    | sequence type' count' format' => cases kind <;> simp [members, ScalarKind.members] at h
    | records recordName' columns' itemLen' maxItems' =>
      cases kind <;> simp [members, ScalarKind.members] at h
  | sequence type count format =>
    cases kind' with
    | scalar kind' => cases kind' <;> simp [members, ScalarKind.members] at h
    | sequence type' count' format' =>
      simp only [members, List.cons.injEq, Prod.mk.injEq, Json.string.injEq, true_and,
        and_true] at h
      obtain ⟨htype, hcount, hformat⟩ := h
      rw [SeqType.name_injective htype, countJson_inj hcount, Format.toJson_injective hformat]
    | records recordName' columns' itemLen' maxItems' => simp [members] at h
  | records recordName columns itemLen maxItems =>
    cases kind' with
    | scalar kind' => cases kind' <;> simp [members, ScalarKind.members] at h
    | sequence type' count' format' => simp [members] at h
    | records recordName' columns' itemLen' maxItems' =>
      simp only [members, List.cons.injEq, Prod.mk.injEq, Json.string.injEq, Json.array.injEq,
        Json.number.injEq, true_and, and_true] at h
      obtain ⟨rfl, hcolumns, rfl, rfl⟩ := h
      rw [List.map_injective_iff.mpr Column.toJson_injective hcolumns]

theorem Field.toJson_injective : Function.Injective Field.toJson := by
  intro f f' h
  obtain ⟨hname, hmin, hmax, hkind⟩ := fieldJson_inj h
  exact Field.ext hname hmin hmax (FieldKind.members_injective hkind)

/-! ### Messages -/

theorem Layout.toJson_injective : Function.Injective Layout.toJson := by
  intro l l' h
  simp only [toJson, Json.object.injEq, List.cons.injEq, Prod.mk.injEq, Json.array.injEq,
    Json.number.injEq, true_and, and_true] at h
  exact Layout.ext (List.map_injective_iff.mpr Field.toJson_injective h.1) h.2.1 h.2.2

/-- A message that names another one has one member more than a message that does not. -/
theorem MessageDef.toJson_injective : Function.Injective MessageDef.toJson := by
  intro m m' h
  have hmembers : m.name = m'.name ∧ m.command = m'.command ∧ m.id.toNat = m'.id.toNat ∧
      m.comment = m'.comment ∧ m.aliasOf = m'.aliasOf ∧ m.layout.toJson = m'.layout.toJson := by
    unfold toJson at h
    cases halias : m.aliasOf with
    | none =>
      cases halias' : m'.aliasOf with
      | none => simpa [halias, halias'] using h
      | some target' => simp [halias, halias'] at h
    | some target =>
      cases halias' : m'.aliasOf with
      | none => simp [halias, halias'] at h
      | some target' => simpa [halias, halias'] using h
  obtain ⟨hname, hcommand, hid, hcomment, halias, hlayout⟩ := hmembers
  exact MessageDef.ext hname hcommand (UInt8.toNat_inj.mp hid) hcomment halias
    (Layout.toJson_injective hlayout)

namespace Catalogue

/-- The digest tells the catalogue. -/
theorem digest_injective : Function.Injective digest := by
  intro c c' h
  have hobject := Json.render_injective h
  simp only [model, Json.object.injEq, List.cons.injEq, Prod.mk.injEq, Json.string.injEq,
    Json.array.injEq, true_and, and_true] at hobject
  exact Catalogue.ext hobject.1 (List.map_injective_iff.mpr MessageDef.toJson_injective hobject.2)

/-- The bytes that the checksum is taken of cover all of a catalogue: they are equal only for the
same version and the same messages, in every name, command, number, comment and alias, in every
layout with its bounds, and in every field of it. -/
theorem digest_eq_iff (c c' : Catalogue) :
    Utf8.encode c.digest = Utf8.encode c'.digest ↔
      c.version = c'.version ∧ c.messages = c'.messages := by
  constructor
  · intro h
    have hdigest := Utf8.decode?_encode c.digest
    rw [h, Utf8.decode?_encode] at hdigest
    obtain rfl := digest_injective (Option.some.inj hdigest)
    exact ⟨rfl, rfl⟩
  · rintro ⟨hversion, hmessages⟩
    rw [Catalogue.ext hversion hmessages]

end Catalogue

end WireSchema
