import Mathlib
import WireSchema.Proofs.Command.RoundTrip

/-!
# The text form agrees with the wire form

Every message that can be written as a frame has a text form. What is read from that text is written
as the same frame, with two exceptions: bits of flags that have no name are lost, and a number that
stands in the place of a truth value is read as false.

* `Field.HoldsNamedFlags`, `Field.HoldsOne` — the values that the two forms differ on;
* `Catalogue.ofCommand_toCommand_of_accepts`, `Catalogue.ofCommand_toCommand_of_encode` — messages
  of such values are read back;
* `Field.write_readBack` — what is read from a text is written as the value was;
* `Catalogue.encode_ofCommand_toCommand` — the frame of a message that went through its text form.
-/

namespace WireSchema

open WireSchema.Text

/-! ### Values that the two forms differ on -/

namespace Field

variable {message : String} {f : Field} {v : Value} {s : Bytes}

/-- Every bit that is set in the value of a flags field has a name. -/
def HoldsNamedFlags (f : Field) (v : Value) : Prop :=
  ∀ names width n, f.kind = .scalar (.flags names width) → v = .int n →
    ∀ i, hasBit n i = true → i < names.length

/-- The number one stands in the place of a truth value. -/
def HoldsOne (f : Field) (v : Value) : Prop :=
  ∃ format, f.kind = .scalar (.integer .bool format) ∧ v = .int 1

/-! ### Values after their text form -/

/-- Flags without unnamed bits keep their value. -/
theorem clearUndeclared_eq_self (hv : f.Matches v) (hnamed : f.HoldsNamedFlags v) :
    f.clearUndeclared v = v := by
  unfold Matches at hv
  unfold clearUndeclared
  split
  · rename_i names width n hkind
    rw [hkind] at hv
    have hn : 0 ≤ n := (ScalarKind.holds_flags_iff.mp hv).1
    obtain ⟨k, rfl⟩ := Int.eq_ofNat_of_zero_le hn
    have hlt : k < 2 ^ names.length := by
      refine Nat.lt_pow_two_of_testBit k fun i hi => ?_
      by_contra hbit
      rw [Bool.not_eq_false, ← hasBit_natCast] at hbit
      have := hnamed names width k hkind rfl i hbit
      omega
    rw [← Int.natCast_mod, Nat.mod_eq_of_lt hlt]
  · rfl

/-- A truth value, and every value of another field, keeps its value if its flags are named. -/
theorem readBack_eq_self (hv : f.Matches v) (hnamed : f.HoldsNamedFlags v) : f.readBack v = v := by
  rw [readBack_of_matches hv, clearUndeclared_eq_self hv hnamed]

theorem not_holdsOne_of_matches (hv : f.Matches v) : ¬f.HoldsOne v := by
  rintro ⟨format, hkind, rfl⟩
  simp only [Matches, hkind, ScalarKind.Matches] at hv

/-- What is read from the text of a value is written in as many bytes as the value, and in the same
ones unless the value is the number one in the place of a truth value. -/
theorem write_readBack (hnamed : f.HoldsNamedFlags v) (h : f.write message v = .ok s) :
    ∃ s', f.write message (f.readBack v) = .ok s' ∧ s'.length = s.length ∧
      (s' = s ↔ ¬f.HoldsOne v) := by
  rcases accepts_of_write h with hv | ⟨format, n, hkind, rfl, hn⟩
  · rw [readBack_eq_self hv hnamed]
    exact ⟨s, h, rfl, iff_of_true rfl (not_holdsOne_of_matches hv)⟩
  · -- A number is zero or one here, and what is read is false in both cases.
    have hback : f.readBack (.int n) = .bool false := by simp only [readBack, hkind]
    have hs : s = [UInt8.ofNat ((ScalarKind.integer .bool format).toBits n)] := by
      rw [write_scalar hkind, writeScalar_int] at h
      exact (ScalarKind.write_eq_ok (mapError_eq_ok.mp h)).2
    refine ⟨[0], ?_, by rw [hs]; rfl, ?_⟩
    · rw [hback, write_scalar hkind]
      rfl
    · rw [hs]
      rcases IntType.eq_zero_or_one hn with rfl | rfl
      · refine iff_of_true rfl ?_
        rintro ⟨format', -, hone⟩
        cases hone
      · have hone : (ScalarKind.integer .bool format).toBits 1 = 1 := rfl
        rw [hone]
        exact iff_of_false (by decide) (not_not.mpr ⟨format, hkind, rfl⟩)

end Field

/-! ### Payloads -/

theorem zipWith_readBack {fields : List Field} {values : List Value}
    (h : List.Forall₂ Field.Matches fields values) :
    List.zipWith Field.readBack fields values
      = List.zipWith Field.clearUndeclared fields values := by
  induction h with
  | nil => rfl
  | cons hv _ ih =>
    rw [List.zipWith_cons_cons, List.zipWith_cons_cons, ih, Field.readBack_of_matches hv]

/-- What is read from the texts of values is written in as many bytes, and in the same ones unless a
number stands in the place of a truth value. -/
theorem exists_write_readBack {message : String} {fields : List Field} {values : List Value}
    {parts : List Bytes} (hnamed : ∀ p ∈ fields.zip values, p.1.HoldsNamedFlags p.2)
    (h : List.Forall₂ (fun p part => p.1.write message p.2 = .ok part) (fields.zip values) parts) :
    ∃ parts', List.Forall₂ (fun p part => p.1.write message p.2 = .ok part)
        (fields.zip (List.zipWith Field.readBack fields values)) parts' ∧
      parts'.map List.length = parts.map List.length ∧
      (parts' = parts ↔ ∀ p ∈ fields.zip values, ¬p.1.HoldsOne p.2) := by
  induction fields generalizing values parts with
  | nil =>
    rw [List.zip_nil_left, List.forall₂_nil_left_iff] at h
    subst h
    exact ⟨[], .nil, rfl, iff_of_true rfl (by simp)⟩
  | cons f fields ih =>
    cases values with
    | nil =>
      rw [List.zip_nil_right, List.forall₂_nil_left_iff] at h
      subst h
      exact ⟨[], .nil, rfl, iff_of_true rfl (by simp)⟩
    | cons v values =>
      rw [List.zip_cons_cons, List.forall₂_cons_left_iff] at h
      obtain ⟨part, parts, hpart, hparts, rfl⟩ := h
      rw [List.zip_cons_cons, List.forall_mem_cons] at hnamed
      obtain ⟨part', hwrite, hlength, hsame⟩ := Field.write_readBack hnamed.1 hpart
      obtain ⟨parts', hwrites, hlengths, hsames⟩ := ih hnamed.2 hparts
      refine ⟨part' :: parts', .cons hwrite hwrites, ?_, ?_⟩
      · rw [List.map_cons, List.map_cons, hlength, hlengths]
      · rw [List.zip_cons_cons, List.forall_mem_cons, List.cons_eq_cons, hsame, hsames]

/-- A payload is written again from what is read from the texts of its values, with the same
exception. -/
theorem MessageDef.writePayload_readBack {m : MessageDef} {values : List Value} {payload : Bytes}
    (hnamed : ∀ p ∈ m.layout.fields.zip values, p.1.HoldsNamedFlags p.2)
    (h : m.writePayload values = .ok payload) :
    ∃ payload', m.writePayload (List.zipWith Field.readBack m.layout.fields values) = .ok payload' ∧
      payload'.length = payload.length ∧
      (payload' = payload ↔ ∀ p ∈ m.layout.fields.zip values, ¬p.1.HoldsOne p.2) := by
  obtain ⟨hlength, hcheck, parts, rfl, hparts⟩ := writePayload_eq_ok h
  obtain ⟨parts', hparts', hlengths, hsame⟩ := exists_write_readBack hnamed hparts
  have htotal : parts'.flatten.length = parts.flatten.length := by
    rw [List.length_flatten, List.length_flatten, hlengths]
  have hcount : (List.zipWith Field.readBack m.layout.fields values).length
      = m.layout.fields.length := by
    rw [List.length_zipWith, hlength, Nat.min_self]
  refine ⟨parts'.flatten, writePayload_of_forall₂ hcount hparts' (htotal ▸ hcheck), htotal, ?_⟩
  rw [← hsame]
  constructor
  · intro hflatten
    exact List.eq_iff_flatten_eq.mpr ⟨hflatten, hlengths⟩
  · rintro rfl
    rfl

/-! ### Messages -/

namespace Catalogue

variable {version : String} {decls : List MessageDecl} {c : Catalogue} {msg : Message}
  {m : MessageDef} {frame : Bytes}

/-- Every bit that is set in the flags of a message has a name. -/
def HoldsNamedFlags (c : Catalogue) (msg : Message) : Prop :=
  ∀ m, c.byId? msg.type = some m → ∀ p ∈ m.layout.fields.zip msg.values, p.1.HoldsNamedFlags p.2

/-- The number one stands in the place of a truth value of a message. -/
def HoldsOne (c : Catalogue) (msg : Message) : Prop :=
  ∃ m, c.byId? msg.type = some m ∧ ∃ p ∈ m.layout.fields.zip msg.values, p.1.HoldsOne p.2

/-- The values of a message that can be written are accepted by the fields of its type. -/
theorem accepts_of_encode (h : c.encode msg = .ok frame) :
    ∃ m ∈ c.messages, c.byId? msg.type = some m ∧ m.id = msg.type ∧
      List.Forall₂ Field.Accepts m.layout.fields msg.values := by
  obtain ⟨m, payload, hm, hpayload, -⟩ := encode_eq_ok h
  obtain ⟨hlength, -, parts, -, hparts⟩ := MessageDef.writePayload_eq_ok hpayload
  obtain ⟨hmem, hid⟩ := byId?_eq_some hm
  refine ⟨m, hmem, hm, hid, List.forall₂_iff_zip.mpr ⟨hlength.symm, fun {f v} hp => ?_⟩⟩
  obtain ⟨part, -, hwrite⟩ := exists_of_forall₂ hparts.flip hp
  exact Field.accepts_of_write hwrite

/-- A message of values that its fields accept has a text form that can be written and is read
back. -/
theorem ofCommand_toCommand_of_accepts (hc : ofDecls version decls = .ok c) (hsafe : c.TextSafe)
    (options : CommandOptions) (hmem : m ∈ c.messages) (hm : c.byId? msg.type = some m)
    (h : List.Forall₂ Field.Accepts m.layout.fields msg.values) :
    ∃ cmd, c.toCommand msg = .ok cmd ∧ cmd.Writable ∧ c.ofCommand options cmd
      = .ok { msg with values := List.zipWith Field.readBack m.layout.fields msg.values } := by
  have hl := wellFormed_of_mem hc hmem
  have hid := (byId?_eq_some hm).2
  have hflags := hsafe.flags m hmem
  have hwords : ∀ f ∈ m.layout.fields, '=' ∉ f.name.toList ∧ IsWord f.name.toList :=
    fun f hf => ⟨hsafe.fields m hmem f hf, isWord_of_mem hc hmem hf⟩
  let cmd : Command := ⟨msg.userId, m.command, arguments (m.layout.fields.zip msg.values),
    writtenRecords (m.layout.fields.zip msg.values)⟩
  refine ⟨cmd, toCommand_of_accepts hl hm h, ?_, ?_⟩
  · exact Command.writable_of_accepts hl (hsafe.commands m hmem) hwords h rfl rfl
  · have hvalues : m.layout.fields.mapM (cmd.value options)
        = .ok (List.zipWith Field.readBack m.layout.fields msg.values) := by
      rw [mapM_eq_ok]
      exact forall₂_zipWith h.length_eq
        (fun p hp => Command.value_of_accepts hl hflags h rfl rfl hp)
    simp only [ofCommand, cmd, byCommand?_of_mem hc hmem]
    rw [hvalues, hid]

/-- A message of values that match its fields is read back from its text form, without the bits of
flags that have no name. -/
theorem ofCommand_toCommand_of_matches (hc : ofDecls version decls = .ok c) (hsafe : c.TextSafe)
    (options : CommandOptions) (hmem : m ∈ c.messages) (hm : c.byId? msg.type = some m)
    (h : List.Forall₂ Field.Matches m.layout.fields msg.values) :
    ∃ cmd, c.toCommand msg = .ok cmd ∧ cmd.Writable ∧
      c.ofCommand options cmd = .ok (c.clearUndeclared msg) := by
  obtain ⟨cmd, hto, hwritable, hof⟩ :=
    ofCommand_toCommand_of_accepts hc hsafe options hmem hm (h.imp fun _ _ => Or.inl)
  refine ⟨cmd, hto, hwritable, ?_⟩
  rw [hof, zipWith_readBack h]
  simp only [clearUndeclared, hm]

/-- A message that can be written, with truth values and named flags, is read back from its text
form as it is. -/
theorem ofCommand_toCommand_of_encode (hc : ofDecls version decls = .ok c) (hsafe : c.TextSafe)
    (options : CommandOptions) (h : c.encode msg = .ok frame) (hbool : c.HoldsBools msg)
    (hflags : c.HoldsNamedFlags msg) :
    ∃ cmd, c.toCommand msg = .ok cmd ∧ cmd.Writable ∧ c.ofCommand options cmd = .ok msg := by
  obtain ⟨m, hmem, hm, -, haccepts⟩ := accepts_of_encode h
  obtain ⟨cmd, hto, hwritable, hof⟩ :=
    ofCommand_toCommand_of_accepts hc hsafe options hmem hm haccepts
  have hvalues : List.zipWith Field.readBack m.layout.fields msg.values = msg.values := by
    have hsame : ∀ p ∈ m.layout.fields.zip msg.values, p.1.readBack p.2 = p.2 := by
      intro p hp
      have hmatches := (List.forall₂_zip haccepts hp).matches_of_holdsBool (hbool m hm p hp)
      exact Field.readBack_eq_self hmatches (hflags m hm p hp)
    have hsecond : (m.layout.fields.zip msg.values).map (Function.uncurry Field.readBack)
        = (m.layout.fields.zip msg.values).map Prod.snd := List.map_congr_left hsame
    rw [← List.map_uncurry_zip_eq_zipWith, hsecond]
    exact List.map_snd_zip (Nat.le_of_eq haccepts.length_eq.symm)
  rw [hvalues] at hof
  exact ⟨cmd, hto, hwritable, hof⟩

/-- A message that can be written has a text form, and what is read from it is written as the same
frame, unless a number stands in the place of a truth value. The bits of its flags have to have
names. -/
theorem encode_ofCommand_toCommand (hc : ofDecls version decls = .ok c) (hsafe : c.TextSafe)
    (options : CommandOptions) (h : c.encode msg = .ok frame) (hflags : c.HoldsNamedFlags msg) :
    ∃ cmd back frame', c.toCommand msg = .ok cmd ∧ Command.ofText cmd.render = .ok cmd ∧
      c.ofCommand options cmd = .ok back ∧ c.encode back = .ok frame' ∧
      (frame' = frame ↔ ¬c.HoldsOne msg) := by
  obtain ⟨m, hmem, hm, -, haccepts⟩ := accepts_of_encode h
  obtain ⟨cmd, hto, hwritable, hof⟩ :=
    ofCommand_toCommand_of_accepts hc hsafe options hmem hm haccepts
  obtain ⟨m', payload, hm', hpayload, rfl⟩ := encode_eq_ok h
  cases hm.symm.trans hm'
  obtain ⟨payload', hpayload', hlength, hsame⟩ :=
    MessageDef.writePayload_readBack (hflags m hm) hpayload
  refine ⟨cmd, _, frameBytes (⟨UInt16.ofNat payload'.length, msg.type, msg.userId⟩, payload'),
    hto, Command.ofText_render hwritable, hof, ?_, ?_⟩
  · simp only [encode, hm, hpayload']
    rfl
  · rw [hlength, frameBytes, frameBytes, List.append_right_inj]
    refine hsame.trans ?_
    simp only [HoldsOne, hm, Option.some.injEq, exists_eq_left', not_exists, not_and]

/-- A message with a truth value and flags. -/
def brushDecls : List MessageDecl :=
  [{ name := "Brush", id := 3
     body := .fields [.short "on bool", .long "mode flags" (some (.names ["erase", "smear"])) {}] }]

/-- The catalogue of `brushDecls`. -/
def brushCatalogue : Catalogue :=
  ⟨"1", [⟨"Brush", "brush", 3, "", none,
    ⟨[Field.ofScalar "on" (.integer .bool .plain),
      Field.ofScalar "mode" (.flags ["erase", "smear"] .one)], 2, 2⟩⟩]⟩

theorem ofDecls_brushDecls : ofDecls "1" brushDecls = .ok brushCatalogue := by
  cbv

theorem textSafe_brushCatalogue : brushCatalogue.TextSafe := by
  refine ⟨?_, by decide, ?_⟩
  · intro m hm
    rw [List.mem_singleton.mp hm]
    exact ⟨⟨by decide, by simp [isBlank]⟩, by decide⟩
  · intro m hm f hf name hname
    rw [List.mem_singleton.mp hm] at hf
    have hall : ∀ name ∈ ["erase", "smear"], IsEntry name.toList := by
      unfold IsEntry
      decide
    rcases List.mem_cons.mp hf with rfl | hf
    · cases hname
    · rw [List.mem_singleton.mp hf] at hname
      exact hall name hname

theorem holdsNamedFlags_brush (v : Value) : brushCatalogue.HoldsNamedFlags ⟨5, 3, [v, .int 3]⟩ := by
  intro m hm
  cases hm
  intro p hp names width n hkind hn i hi
  rcases List.mem_cons.mp hp with rfl | hp
  · cases hkind
  rw [List.mem_singleton.mp hp] at hkind hn
  cases hkind
  cases hn
  exact lt_of_hasBit (show 3 < 2 ^ 2 by decide) hi

theorem encode_ofCommand_toCommand_brush :
    ∃ cmd back frame', brushCatalogue.toCommand ⟨5, 3, [.bool true, .int 3]⟩ = .ok cmd ∧
      Command.ofText cmd.render = .ok cmd ∧ brushCatalogue.ofCommand {} cmd = .ok back ∧
      brushCatalogue.encode back = .ok frame' ∧
      (frame' = [0, 2, 3, 5, 1, 3] ↔ ¬brushCatalogue.HoldsOne ⟨5, 3, [.bool true, .int 3]⟩) := by
  have hwrite : brushCatalogue.encode ⟨5, 3, [.bool true, .int 3]⟩ = .ok [0, 2, 3, 5, 1, 3] := by
    decide
  exact encode_ofCommand_toCommand ofDecls_brushDecls textSafe_brushCatalogue {} hwrite
    (holdsNamedFlags_brush _)

/-- The number one is written as a truth value, but its text is read as false. -/
theorem text_changes_frame :
    ¬∀ (version : String) (decls : List MessageDecl) (c : Catalogue) (options : CommandOptions)
      (msg : Message) (frame : Bytes),
      ofDecls version decls = .ok c → c.TextSafe → c.encode msg = .ok frame →
        c.HoldsNamedFlags msg → ∃ cmd cmd' back, c.toCommand msg = .ok cmd ∧
          Command.ofText cmd.render = .ok cmd' ∧ c.ofCommand options cmd' = .ok back ∧
          c.encode back = .ok frame := by
  intro h
  have hwrite : brushCatalogue.encode ⟨5, 3, [.int 1, .int 3]⟩ = .ok [0, 2, 3, 5, 1, 3] := by decide
  obtain ⟨cmd, cmd', back, hto, htext, hof, hback⟩ := h "1" brushDecls brushCatalogue {} _ _
    ofDecls_brushDecls textSafe_brushCatalogue hwrite (holdsNamedFlags_brush _)
  obtain ⟨m, hmem, hm, -, haccepts⟩ := accepts_of_encode hwrite
  obtain ⟨cmd₀, hto₀, hwritable, hof₀⟩ :=
    ofCommand_toCommand_of_accepts ofDecls_brushDecls textSafe_brushCatalogue {} hmem hm haccepts
  cases hm
  cases hto₀.symm.trans hto
  cases (Command.ofText_render hwritable).symm.trans htext
  cases hof₀.symm.trans hof
  have hchanged : brushCatalogue.encode ⟨5, 3, [.bool false, .int 3]⟩ = .ok [0, 2, 3, 5, 0, 3] := by
    decide
  cases hchanged.symm.trans hback

end Catalogue

end WireSchema
