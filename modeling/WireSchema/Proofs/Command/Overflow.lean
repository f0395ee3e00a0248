import Mathlib
import WireSchema.Command.Line
import WireSchema.Proofs.Command.Spelling
import WireSchema.Proofs.Command.Typing

/-!
# Numbers in text and 64-bit integers

Reading a command goes through signed integers of 64 bits: magnitudes are negated, hexadecimal
patterns are brought below zero, and the bits of flags and their bound are shifted bits. The program
stops at an operation that leaves the range of these integers. One operation does, for one magnitude
only: digits may have a minus sign of their own, so that behind a second minus sign the least
integer is negated. Everything else stays in range, whatever the text and the options.

* `StopsIff` — when a reading stops, and that it stops at nothing else;
* `Meets`, `stopsIff_mapM` — reading a list up to the first element that it stops at;
* `Field.NegatesLeast`, `Catalogue.NegatesLeast` — the texts that negate the least integer;
* `Catalogue.readText_eq_overflow_iff` — where the reading of a text stops.
-/

namespace WireSchema

open WireSchema.Text

/-- The message that a text denotes: the message of its one command. Cutting the text into lines and
words has no operations on signed 64-bit integers. -/
def Catalogue.readText (c : Catalogue) (options : CommandOptions) (s : List Char) :
    Except CommandError Message :=
  match Command.ofText s with
  | .ok cmd => c.ofCommand options cmd
  | .error e => .error (.malformed e)

/-! ### Stopping at an overflow -/

/-- A reading stops just if `P` holds, and then at the negation of the least integer. -/
def StopsIff {α : Type} (P : Prop) (x : Except CommandError α) : Prop :=
  ∀ operation result, x = .error (.overflow operation result) ↔
    P ∧ operation = .negation ∧ result = 2 ^ 63

/-- Reading a list from its front comes to an element of a kind, behind elements that can all be
read. -/
def Meets {α β : Type} (read : α → Except CommandError β) (P : α → Prop) (list : List α) : Prop :=
  ∃ before a after, list = before ++ a :: after ∧ (∀ b ∈ before, ∃ v, read b = .ok v) ∧ P a

section StopsIff

variable {α β : Type} {P Q : Prop} {x : Except CommandError α}

theorem StopsIff.congr (h : StopsIff P x) (hPQ : P ↔ Q) : StopsIff Q x := by
  intro operation result
  rw [h operation result, hPQ]

theorem stopsIff_ok (a : α) : StopsIff False (Except.ok a : Except CommandError α) := by
  intro operation result
  simp

theorem stopsIff_error {e : CommandError} (h : ∀ operation result, e ≠ .overflow operation result) :
    StopsIff False (Except.error e : Except CommandError α) := by
  intro operation result
  simp [h operation result]

/-- One reading behind another stops where the first does, or behind its result where the second
does. -/
theorem StopsIff.bind_or (h : StopsIff P x) {f : α → Except CommandError β}
    (hf : ∀ a, x = .ok a → StopsIff Q (f a)) :
    StopsIff (P ∨ (∃ a, x = .ok a) ∧ Q) (x >>= f) := by
  intro operation result
  have hfirst := h operation result
  cases x with
  | error e =>
    show Except.error e = _ ↔ _
    rw [Except.error.injEq] at hfirst ⊢
    rw [hfirst]
    simp
  | ok a =>
    have hnot : ¬P := by
      intro hP
      cases (h .negation (2 ^ 63)).mpr ⟨hP, rfl, rfl⟩
    show f a = _ ↔ _
    rw [hf a rfl operation result]
    simp [hnot]

/-- What is done with a result that was read stops at nothing. -/
theorem StopsIff.bind (h : StopsIff P x) {f : α → Except CommandError β}
    (hf : ∀ a, x = .ok a → StopsIff False (f a)) : StopsIff P (x >>= f) :=
  (h.bind_or hf).congr (by simp)

theorem StopsIff.map (h : StopsIff P x) (g : α → β) : StopsIff P (x.map g) := by
  have hbind : x.map g = x >>= fun a => .ok (g a) := by
    cases x <;> rfl
  rw [hbind]
  exact h.bind fun a _ => stopsIff_ok (g a)

variable {f : α → Except CommandError β} {K : α → Prop} {list : List α}

theorem meets_nil : ¬Meets f K [] := by
  rintro ⟨before, a, after, hsplit, -, -⟩
  cases before <;> cases hsplit

theorem meets_cons {a : α} :
    Meets f K (a :: list) ↔ K a ∨ (∃ v, f a = .ok v) ∧ Meets f K list := by
  constructor
  · rintro ⟨before, b, after, hsplit, hbefore, hb⟩
    cases before with
    | nil =>
      cases hsplit
      exact Or.inl hb
    | cons a' before =>
      cases hsplit
      rw [List.forall_mem_cons] at hbefore
      exact Or.inr ⟨hbefore.1, before, b, after, rfl, hbefore.2, hb⟩
  · rintro (ha | ⟨hv, before, b, after, rfl, hbefore, hb⟩)
    · exact ⟨[], a, list, rfl, fun b hb => absurd hb List.not_mem_nil, ha⟩
    · exact ⟨a :: before, b, after, rfl, List.forall_mem_cons.mpr ⟨hv, hbefore⟩, hb⟩

theorem meets_false : ¬Meets f (fun _ => False) list := by
  rintro ⟨before, a, after, -, -, hfalse⟩
  exact hfalse

/-- A list is read up to the first element that its reading stops at. -/
theorem stopsIff_mapM (h : ∀ a ∈ list, StopsIff (K a) (f a)) :
    StopsIff (Meets f K list) (list.mapM f) := by
  induction list with
  | nil => exact (stopsIff_ok []).congr (iff_of_false id meets_nil)
  | cons a list ih =>
    rw [List.forall_mem_cons] at h
    rw [List.mapM_cons]
    refine StopsIff.congr (h.1.bind_or fun v _ => ?_) meets_cons.symm
    exact (ih h.2).bind fun values _ => stopsIff_ok (v :: values)

/-- A fold whose steps stop at nothing. -/
theorem stopsIff_foldlM {step : β → α → Except CommandError β}
    (h : ∀ a ∈ list, ∀ b, StopsIff False (step b a)) (b : β) :
    StopsIff False (list.foldlM step b) := by
  induction list generalizing b with
  | nil => exact stopsIff_ok b
  | cons a list ih =>
    rw [List.forall_mem_cons] at h
    rw [List.foldlM_cons]
    exact (h.1 b).bind fun b' _ => ih h.2 b'

end StopsIff

/-! ### Readers of numbers -/

theorem stopsIff_readInteger? (s : List Char) : StopsIff (NegatesLeast s) (readInteger? s) := by
  intro operation result
  rw [readInteger?_eq_error_iff, CommandError.overflow.injEq]

theorem stopsIff_readColor (field : String) (s : List Char) :
    StopsIff (NegatesLeast s) (readColor field s) := by
  intro operation result
  rw [readColor_eq_overflow_iff]
  exact stopsIff_readInteger? s operation result

namespace IntType

theorem stopsIff_checkRange (type : IntType) (field : String) (s : List Char) (number : Option ℤ) :
    StopsIff False (type.checkRange field s number) := by
  cases number with
  | none => exact stopsIff_error (by simp)
  | some v =>
    rw [checkRange]
    split
    · exact stopsIff_ok v
    · exact stopsIff_error (by simp)

theorem stopsIff_ofRead? (type : IntType) (isHex : Bool) (number : Option ℤ) :
    StopsIff False (type.ofRead? isHex number) := by
  cases number with
  | none => exact stopsIff_ok none
  | some v =>
    rw [ofRead?, ofRead_eq]
    exact stopsIff_ok _

theorem stopsIff_read (type : IntType) {format : Format} (hformat : ∀ d, format ≠ .div d)
    (field : String) (s : List Char) :
    StopsIff (NegatesLeast s) (type.read format field s) := by
  rw [type.read_of_ne_div hformat]
  refine (stopsIff_readInteger? s).bind fun read _ => ?_
  exact (type.stopsIff_ofRead? _ read).bind fun number _ => type.stopsIff_checkRange field s number

theorem stopsIff_read_div (type : IntType) (d : Divisor) (field : String) (s : List Char) :
    StopsIff False (type.read (.div d) field s) :=
  type.stopsIff_checkRange field s _

theorem stopsIff_readEntry (type : IntType) (field : String) (entry : List Char) :
    StopsIff (NegatesLeast entry) (type.readEntry field entry) :=
  (stopsIff_readInteger? entry).bind fun read _ => type.stopsIff_checkRange field entry read

end IntType

/-- A list of numbers is read up to the first one that is negated out of range. -/
theorem stopsIff_readList (field : String) (type : IntType) (s : List Char) :
    StopsIff (Meets (type.readEntry field) NegatesLeast (listEntries s)) (readList field type s) :=
  stopsIff_mapM fun entry _ => type.stopsIff_readEntry field entry

/-! ### Readers without an overflow -/

variable {options : CommandOptions}

/-- There are no more flags than bits in the widest field. -/
theorem stopsIff_addFlag {names : List String} (hlength : names.length ≤ 63) (field : String)
    (bits : ℕ) (entry : List Char) :
    StopsIff False (addFlag options field names bits entry) := by
  cases hi : names.idxOf? (String.ofList entry) with
  | some i =>
    rw [addFlag_of_idxOf? hlength options field bits hi]
    exact stopsIff_ok _
  | none =>
    unfold addFlag
    rw [hi]
    simp only
    split
    · exact stopsIff_error (by simp)
    · exact stopsIff_ok bits

theorem stopsIff_readFlags {names : List String} (hlength : names.length ≤ 63) (field : String)
    (s : List Char) : StopsIff False (readFlags options field names s) :=
  (stopsIff_foldlM (fun entry _ bits => stopsIff_addFlag hlength field bits entry) 0).bind
    fun bits _ => stopsIff_ok (bits : ℤ)

theorem Column.stopsIff_scaleUp (c : Column) (x : Binary64) : StopsIff False (c.scaleUp x) := by
  unfold scaleUp
  cases c.unscaled? x with
  | none => exact stopsIff_error (by simp)
  | some v =>
    simp only [ScalarKind.fits_eq]
    show StopsIff False (if _ then _ else _)
    split
    · exact stopsIff_ok v
    · exact stopsIff_error (by simp)

theorem stopsIff_readRecord (columns : List Column) (record : List Binary64) :
    StopsIff False (readRecord columns record) :=
  (stopsIff_mapM fun entry _ => entry.1.stopsIff_scaleUp entry.2).congr
    (iff_of_false meets_false id)

theorem stopsIff_recordsOf (field : String) (columns : List Column) (done : List (List ℤ))
    (records : List (List Binary64)) :
    StopsIff False (recordsOf options field columns done records) := by
  induction records generalizing done with
  | nil => exact stopsIff_ok done.reverse
  | cons record records ih =>
    rw [recordsOf]
    split
    · split
      · exact stopsIff_error (by simp)
      · exact ih done
    · have hrecord :=
        (stopsIff_readRecord columns record).bind fun numbers _ => ih (numbers :: done)
      cases hread : readRecord columns record with
      | error e =>
        rw [hread] at hrecord
        exact hrecord
      | ok numbers => exact ih (numbers :: done)

/-! ### Fields, messages and texts -/

/-- The text of a field negates the least integer: as the number of the field, or as the first entry
of a list that cannot be read. -/
def Field.NegatesLeast (f : Field) (s : List Char) : Prop :=
  match f.kind with
  | .scalar (.integer .bool _) | .scalar (.integer _ (.div _)) => False
  | .scalar (.integer _ _) => WireSchema.NegatesLeast s
  | .sequence .vecU8 _ _ =>
    Meets (IntType.u8.readEntry f.name) WireSchema.NegatesLeast (listEntries s)
  | .sequence .vecU16 _ _ =>
    Meets (IntType.u16.readEntry f.name) WireSchema.NegatesLeast (listEntries s)
  | _ => False

/-- The argument of a field in a command negates the least integer. -/
def Command.NegatesLeast (cmd : Command) (f : Field) : Prop :=
  ∃ s, cmd.get? f.name = some s ∧ f.NegatesLeast s.toList

/-- A text is a command of the catalogue, and the arguments before the first one that negates the
least integer can be read. -/
def Catalogue.NegatesLeast (c : Catalogue) (options : CommandOptions) (s : List Char) : Prop :=
  ∃ cmd m, Command.ofText s = .ok cmd ∧ c.byCommand? cmd.name = some m ∧
    Meets (cmd.value options) cmd.NegatesLeast m.layout.fields

/-- The text of a value, kind by kind. -/
theorem Field.stopsIff_ofText {f : Field} (hf : f.WellFormed) (s : List Char) :
    StopsIff (f.NegatesLeast s) (f.ofText options s) := by
  unfold NegatesLeast ofText
  cases hkind : f.kind with
  | scalar kind =>
    cases kind with
    | integer type format =>
      cases type with
      | bool => exact stopsIff_ok _
      | argb32 =>
        cases format with
        | plain => exact (stopsIff_readColor f.name s).map Value.int
        | hex => exact (IntType.argb32.stopsIff_read (by simp) f.name s).map Value.int
        | div d => exact (IntType.argb32.stopsIff_read_div d f.name s).map Value.int
      | _ =>
        cases format with
        | div d => exact (IntType.stopsIff_read_div _ d f.name s).map Value.int
        | _ => exact (IntType.stopsIff_read _ (by simp) f.name s).map Value.int
    | flags names width =>
      have hlength := ScalarKind.length_names_le (hf.scalar hkind).1
      exact (stopsIff_readFlags hlength f.name s).map Value.int
  | sequence type count format =>
    cases type with
    | bytes =>
      simp only
      cases Base64.decode? s with
      | none => exact stopsIff_error (by simp)
      | some bytes => exact stopsIff_ok _
    | vecU8 => exact (stopsIff_readList f.name .u8 s).map _
    | vecU16 => exact (stopsIff_readList f.name .u16 s).map _
    | utf8 => exact stopsIff_ok _
  | records recordName columns itemLen maxItems => exact stopsIff_error (by simp)

theorem Command.stopsIff_value {f : Field} (hf : f.WellFormed) (cmd : Command) :
    StopsIff (cmd.NegatesLeast f) (cmd.value options f) := by
  unfold value
  split
  · rename_i recordName columns itemLen maxItems hkind
    have hnot : ¬cmd.NegatesLeast f := by
      rintro ⟨s, -, hs⟩
      unfold Field.NegatesLeast at hs
      rw [hkind] at hs
      exact hs
    exact ((stopsIff_recordsOf f.name columns [] cmd.records).map Value.records).congr
      (iff_of_false id hnot)
  · cases hs : cmd.get? f.name with
    | none => exact (stopsIff_ok (Value.zero f)).congr (by simp [NegatesLeast, hs])
    | some s => exact (Field.stopsIff_ofText hf s.toList).congr (by simp [NegatesLeast, hs])

namespace Catalogue

variable {version : String} {decls : List MessageDecl} {c : Catalogue}

theorem stopsIff_ofCommand (hc : ofDecls version decls = .ok c) (options : CommandOptions)
    (cmd : Command) :
    StopsIff (∃ m, c.byCommand? cmd.name = some m ∧
        Meets (cmd.value options) cmd.NegatesLeast m.layout.fields)
      (c.ofCommand options cmd) := by
  unfold ofCommand
  cases hm : c.byCommand? cmd.name with
  | none => exact (stopsIff_error (by simp)).congr (by simp)
  | some m =>
    have hl := wellFormed_of_mem hc (byCommand?_eq_some hm).1
    have hvalues : StopsIff (Meets (cmd.value options) cmd.NegatesLeast m.layout.fields)
        (m.layout.fields.mapM (cmd.value options)) :=
      stopsIff_mapM fun f hf => Command.stopsIff_value (hl.fields f hf) cmd
    have hmessage := hvalues.map fun values => (⟨cmd.userId, m.id, values⟩ : Message)
    simp only [Option.some.injEq, exists_eq_left']
    cases hread : m.layout.fields.mapM (cmd.value options) with
    | error e =>
      rw [hread] at hmessage
      exact hmessage
    | ok values =>
      rw [hread] at hmessage
      exact hmessage

/-- Reading the text of a command stops exactly if an argument that is reached negates the least
integer, whose negation is `2 ^ 63`. On every other text no operation leaves the 64-bit integers,
and there is a message or an error. -/
theorem readText_eq_overflow_iff (hc : ofDecls version decls = .ok c) (options : CommandOptions)
    (s : List Char) (operation : Operation) (result : ℤ) :
    c.readText options s = .error (.overflow operation result) ↔
      c.NegatesLeast options s ∧ operation = .negation ∧ result = 2 ^ 63 := by
  revert operation result
  show StopsIff (c.NegatesLeast options s) (c.readText options s)
  unfold NegatesLeast readText
  cases Command.ofText s with
  | error e => exact (stopsIff_error (by simp)).congr (by simp)
  | ok cmd => exact (stopsIff_ofCommand hc options cmd).congr (by simp)

/-- A text with one minus sign too many, in front of the digits of `2 ^ 63`. -/
def leastLine : List Char :=
  "5 note at=--9223372036854775808".toList

theorem negatesLeast_leastLine : noteCatalogue.NegatesLeast {} leastLine := by
  have hcommand : Command.ofText leastLine
      = .ok ⟨5, "note", [("at", "--9223372036854775808")], []⟩ := by cbv
  have hdigits : Denotes 10 "9223372036854775808".toList (2 ^ 63) :=
    (readNumeral_eq_some_iff (by decide)).mp (by decide)
  have hnumber : WireSchema.NegatesLeast "--9223372036854775808".toList :=
    ⟨"-9223372036854775808".toList, by decide, .decimal hdigits⟩
  refine ⟨_, _, hcommand, rfl, [Field.ofScalar "on" (.integer .bool .plain)], _, _, rfl, ?_, ?_⟩
  · intro f hf
    rw [List.mem_singleton.mp hf]
    exact ⟨.bool false, rfl⟩
  · exact ⟨_, rfl, hnumber⟩

theorem readText_leastLine :
    noteCatalogue.readText {} leastLine = .error (.overflow .negation (2 ^ 63)) :=
  (readText_eq_overflow_iff ofDecls_noteDecls {} leastLine _ _).mpr
    ⟨negatesLeast_leastLine, rfl, rfl⟩

/-- The least integer is negated, which is no 64-bit integer. -/
theorem leastLine_overflows :
    ¬∀ (version : String) (decls : List MessageDecl) (c : Catalogue) (options : CommandOptions)
      (s : List Char), ofDecls version decls = .ok c →
        ∀ operation result, c.readText options s ≠ .error (.overflow operation result) := by
  intro h
  have hoverflow : noteCatalogue.readText {} leastLine
      = .error (.overflow .negation 0x8000000000000000) := by cbv
  exact h "1" noteDecls noteCatalogue {} leastLine ofDecls_noteDecls _ _ hoverflow

end Catalogue

end WireSchema
