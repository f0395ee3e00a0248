import Mathlib
import WireSchema.Command.Convert
import WireSchema.Proofs.Schema.Order
import WireSchema.Proofs.Wire.Safety

/-!
# Aliases and the messages that they name

An alias is read and written like the message that it names, byte for byte and argument for
argument: only the type of a frame and the name of a command are its own. The name of a message has
no part in this but in the text of one error, the one for a sequence that is too long. All of this
follows from the layout, which the two share; so it is proved for any two messages of one layout.

* `WireFault.renamed` — a fault, reported for another message;
* `Field.read_renamed`, `Field.write_renamed` — fields do not depend on the name of their message;
* `Catalogue.Mirrors` — two messages that differ only in their numbers, names and commands;
* `Catalogue.mirrors_target` — an alias and the message that it names.
-/

namespace WireSchema

/-! ### The name of a message in its faults -/

/-- A fault that is reported for a message of another name. -/
def WireFault.renamed (message : String) : WireFault → WireFault
  | fieldTooLong _ field => fieldTooLong message field
  | e => e

/-- A fault with the number of bytes before it, reported for a message of another name. -/
def renamedAt (message : String) (e : WireFault × ℕ) : WireFault × ℕ :=
  (e.1.renamed message, e.2)

/-- An error that is reported for another message. -/
def WireError.retyped (m : MessageDef) (e : WireError) : WireError :=
  { e with type := m.id, fault := e.fault.renamed m.name }

/-! ### Reading -/

theorem readCounted_renamed (message message' field : String) (type : SeqType) (count : CountType)
    (most : ℕ) (s : Bytes) :
    readCounted (.fieldTooLong message' field) type count most s
      = (readCounted (.fieldTooLong message field) type count most s).mapError
          (WireFault.renamed message') := by
  simp only [readCounted]
  cases count.width.get? s with
  | none => rfl
  | some p =>
    show (if most < p.1 * type.elementSize then _ else _) = Except.mapError _ (if _ then _ else _)
    split
    · rfl
    · cases takeExactly? (p.1 * type.elementSize) p.2 with
      | none => rfl
      | some q => rfl

/-- A field is read the same for a message of another name. -/
theorem Field.read_renamed (message message' : String) (f : Field) (s : Bytes) :
    f.read message' s = (f.read message s).mapError (WireFault.renamed message') := by
  simp only [read]
  cases f.kind with
  | scalar kind =>
    cases hread : kind.read s with
    | error e =>
      obtain rfl := ScalarKind.read_eq_error hread
      simp only [hread, Except.mapError, WireFault.renamed]
    | ok p => simp only [hread, Except.mapError]
  | sequence type count format =>
    cases count with
    | some count =>
      simp only
      rw [readCounted_renamed message message']
      cases readCounted (.fieldTooLong message f.name) type count (f.contentMax (some count)) s with
      | error e => rfl
      | ok p => rfl
    | none =>
      simp only
      split
      · rfl
      · rfl
  | records recordName columns itemLen maxItems =>
    simp only
    split
    · cases hread : readRecords columns [] (s.length / itemLen) s with
      | error e =>
        rw [readRecords_eq_error hread]
        rfl
      | ok p => rfl
    · rfl

theorem readFields_renamed (message message' : String) (fields : List Field) (s : Bytes) :
    readFields message' fields s
      = (readFields message fields s).mapError (WireFault.renamed message') := by
  induction fields generalizing s with
  | nil => rfl
  | cons f fields ih =>
    rw [readFields, readFields, Field.read_renamed message message']
    cases f.read message s with
    | error e => rfl
    | ok p =>
      have hrest := ih p.2
      cases hfields : readFields message fields p.2 with
      | error e =>
        rw [hfields] at hrest
        simp only [Except.mapError, hrest, hfields]
      | ok q =>
        rw [hfields] at hrest
        simp only [Except.mapError, hrest, hfields]

/-! ### Writing -/

/-- A fault in which no message is named. -/
def WireFault.Unnamed (e : WireFault) : Prop :=
  ∀ message, e.renamed message = e

theorem ScalarKind.unnamed_of_write {kind : ScalarKind} {name : String} {v : ℤ} {e : WireFault}
    (h : kind.write name v = .error e) : e.Unnamed := by
  simp only [write] at h
  split at h
  · cases h
  · cases h
    intro message
    rfl

theorem unnamed_of_writeColumns {columns : List Column} {record : List ℤ} {e : WireFault × ℕ}
    (h : writeColumns columns record = .error e) : e.1.Unnamed := by
  induction columns generalizing record e with
  | nil => cases h
  | cons c columns ih =>
    cases record with
    | nil => cases h
    | cons v vs =>
      rw [writeColumns] at h
      split at h
      · rename_i hwrite
        cases h
        exact ScalarKind.unnamed_of_write hwrite
      · split at h
        · rename_i hrest
          cases h
          exact (ih hrest :)
        · cases h

theorem unnamed_of_writeRecords {field : String} {columns : List Column} {done : List Bytes}
    {records : List (List ℤ)} {e : WireFault × ℕ}
    (h : writeRecords field columns done records = .error e) : e.1.Unnamed := by
  induction records generalizing done with
  | nil => cases h
  | cons record rest ih =>
    rw [writeRecords] at h
    split at h
    · cases h
      intro message
      rfl
    · split at h
      · rename_i hcolumns
        cases h
        exact (unnamed_of_writeColumns hcolumns :)
      · exact ih h

theorem Field.unnamed_of_writeScalar {f : Field} {kind : ScalarKind} {v : Value} {e : WireFault}
    (h : f.writeScalar kind v = .error e) : e.Unnamed := by
  simp only [writeScalar] at h
  split at h
  · cases h
  · exact ScalarKind.unnamed_of_write h
  · cases h
    intro message
    rfl

theorem Field.writeSequence_renamed (message message' : String) (f : Field) (type : SeqType)
    (count : Option CountType) (v : Value) :
    f.writeSequence message' type count v
      = (f.writeSequence message type count v).mapError (WireFault.renamed message') := by
  simp only [writeSequence]
  split
  · rfl
  · split
    · rfl
    · split
      · rfl
      · rfl

/-- A field is written the same for a message of another name. -/
theorem Field.write_renamed (message message' : String) (f : Field) (v : Value) :
    f.write message' v = (f.write message v).mapError (renamedAt message') := by
  simp only [write]
  cases f.kind with
  | scalar kind =>
    cases hwrite : f.writeScalar kind v with
    | error e =>
      have he := Field.unnamed_of_writeScalar hwrite message'
      simp only [hwrite, Except.mapError, renamedAt, he]
    | ok s => simp only [hwrite, Except.mapError]
  | sequence type count format =>
    show (f.writeSequence message' type count v).mapError _ = _
    rw [Field.writeSequence_renamed message message']
    cases hwrite : f.writeSequence message type count v with
    | error e => simp only [hwrite, Except.mapError, renamedAt]
    | ok s => simp only [hwrite, Except.mapError]
  | records recordName columns itemLen maxItems =>
    cases v with
    | records records =>
      simp only
      split
      · rfl
      · cases hwrite : writeRecords f.name columns [] records with
        | error e =>
          have he := unnamed_of_writeRecords hwrite message'
          simp only [Except.mapError, renamedAt, he]
        | ok s => rfl
    | _ => rfl

theorem writeFields_renamed (message message' : String) (done : List Bytes) (fields : List Field)
    (values : List Value) :
    writeFields message' done fields values
      = (writeFields message done fields values).mapError (renamedAt message') := by
  induction fields generalizing done values with
  | nil => rfl
  | cons f fields ih =>
    cases values with
    | nil => rfl
    | cons v values =>
      rw [writeFields, writeFields, Field.write_renamed message message']
      cases f.write message v with
      | error e => rfl
      | ok s => exact ih (s :: done) values

/-! ### Messages of one layout -/

section Layout

variable {a t : MessageDef}

theorem MessageDef.checkLength_eq (h : a.layout = t.layout) (length : ℕ) :
    a.checkLength length = t.checkLength length := by
  simp only [checkLength]
  rw [h]

theorem MessageDef.unnamed_of_checkLength {length : ℕ} {e : WireFault}
    (h : t.checkLength length = .error e) : e.Unnamed := by
  simp only [checkLength] at h
  split at h
  · cases h
    intro message
    rfl
  · cases h

/-- Payloads are read the same for messages of one layout. -/
theorem MessageDef.readPayload_renamed (h : a.layout = t.layout) (payload : Bytes) :
    a.readPayload payload = (t.readPayload payload).mapError (WireFault.renamed a.name) := by
  unfold readPayload
  rw [h, MessageDef.checkLength_eq h, readFields_renamed t.name a.name]
  simp only
  cases hlength : if t.layout.fields.isEmpty then .ok () else t.checkLength payload.length with
  | error e =>
    have he : e.Unnamed := by
      split at hlength
      · cases hlength
      · exact MessageDef.unnamed_of_checkLength hlength
    exact congrArg Except.error (he a.name).symm
  | ok _ =>
    cases readFields t.name t.layout.fields payload with
    | error e => rfl
    | ok p => rfl

/-- Payloads are written the same for messages of one layout. -/
theorem MessageDef.writePayload_renamed (h : a.layout = t.layout) (values : List Value) :
    a.writePayload values = (t.writePayload values).mapError (renamedAt a.name) := by
  simp only [writePayload]
  rw [h, writeFields_renamed t.name a.name]
  split
  · rfl
  · cases writeFields t.name [] t.layout.fields values with
    | error e => rfl
    | ok payload =>
      simp only [Except.mapError, MessageDef.checkLength_eq h]
      cases hlength : t.checkLength payload.length with
      | error e =>
        have he := MessageDef.unnamed_of_checkLength hlength a.name
        simp only [renamedAt, he]
      | ok _ => rfl

end Layout

/-! ### Commands -/

/-- The command under another name. -/
def Command.named (name : String) (cmd : Command) : Command :=
  { cmd with name := name }

theorem Command.addField_named (name : String) (cmd : Command) (f : Field) (v : Value) :
    (cmd.named name).addField f v = (cmd.addField f v).map (Command.named name) := by
  have hset : ∀ s, (cmd.named name).set f.name s = (cmd.set f.name s).named name := by
    intro s
    simp only [set]
    split
    · rfl
    · rfl
  simp only [addField]
  split
  · rfl
  · rename_i value _ _ _
    cases f.kind.render? value with
    | none => rfl
    | some s => simp only [Except.map, hset]

theorem Command.addFields_named (name : String) (cmd : Command) (fields : List (Field × Value)) :
    (cmd.named name).addFields fields = (cmd.addFields fields).map (Command.named name) := by
  induction fields generalizing cmd with
  | nil => rfl
  | cons p fields ih =>
    rw [addFields, addFields, Command.addField_named]
    cases cmd.addField p.1 p.2 with
    | error e => rfl
    | ok cmd' => exact ih cmd'

/-! ### Messages that mirror each other -/

/-- The message under another type. -/
def Message.typed (type : UInt8) (msg : Message) : Message :=
  { msg with type := type }

namespace Catalogue

/-- A message is read and written like another one, in frames and in commands, with all values and
with all errors. Its own are the type of a frame, the third byte, and the name of a command; and the
errors that name a message or its type name this one. -/
structure Mirrors (c : Catalogue) (a t : MessageDef) : Prop where
  encode : ∀ userId values, c.encode ⟨userId, a.id, values⟩
    = ((c.encode ⟨userId, t.id, values⟩).map fun frame => frame.set 2 a.id).mapError
        (WireError.retyped a)
  decodeFrame : ∀ payloadLen userId payload, c.decodeFrame ⟨payloadLen, a.id, userId⟩ payload
    = ((c.decodeFrame ⟨payloadLen, t.id, userId⟩ payload).map (Message.typed a.id)).mapError
        (WireError.retyped a)
  toCommand : ∀ userId values, c.toCommand ⟨userId, a.id, values⟩
    = (c.toCommand ⟨userId, t.id, values⟩).map (Command.named a.command)
  ofCommand : ∀ options userId args records, c.ofCommand options ⟨userId, a.command, args, records⟩
    = (c.ofCommand options ⟨userId, t.command, args, records⟩).map (Message.typed a.id)

variable {version : String} {decls : List MessageDecl} {c : Catalogue} {a t : MessageDef}

/-- The type is the third byte of a frame. -/
theorem set_frame (payloadLen : UInt16) (type type' userId : UInt8) (payload : Bytes) :
    ((FrameHeader.mk payloadLen type userId).encode ++ payload).set 2 type'
      = (FrameHeader.mk payloadLen type' userId).encode ++ payload :=
  rfl

/-- Messages of one layout mirror each other. -/
theorem mirrors_of_layout_eq (h : ofDecls version decls = .ok c) (ha : a ∈ c.messages)
    (ht : t ∈ c.messages) (hlayout : a.layout = t.layout) : c.Mirrors a t := by
  have haid := byId?_of_mem h ha
  have htid := byId?_of_mem h ht
  refine ⟨?_, ?_, ?_, ?_⟩
  · intro userId values
    simp only [encode, haid, htid, MessageDef.writePayload_renamed hlayout]
    cases t.writePayload values with
    | error e => rfl
    | ok payload => exact congrArg Except.ok (set_frame _ _ _ _ _).symm
  · intro payloadLen userId payload
    simp only [decodeFrame, haid, htid, MessageDef.readPayload_renamed hlayout]
    cases t.readPayload payload with
    | error e => rfl
    | ok values => rfl
  · intro userId values
    simp only [toCommand, haid, htid, hlayout]
    split
    · rfl
    · exact Command.addFields_named a.command ⟨userId, t.command, [], []⟩ _
  · intro options userId args records
    have hacommand := byCommand?_of_mem h ha
    have htcommand := byCommand?_of_mem h ht
    -- The value of a field does not depend on the name of the command.
    have hvalue : Command.value options ⟨userId, a.command, args, records⟩
        = Command.value options ⟨userId, t.command, args, records⟩ := rfl
    simp only [ofCommand, hacommand, htcommand, hlayout, hvalue]
    cases t.layout.fields.mapM (Command.value options ⟨userId, t.command, args, records⟩) with
    | error e => rfl
    | ok values => rfl

/-- An alias mirrors the message that it names, wherever the two are declared. Its number and its
command are not those of that message. -/
theorem mirrors_target (h : ofDecls version decls = .ok c) (ha : a ∈ c.messages) {target : String}
    (halias : a.aliasOf = some target) :
    ∃ t, c.byName? target = some t ∧ t.id ≠ a.id ∧ t.command ≠ a.command ∧ c.Mirrors a t := by
  obtain ⟨t, ht, hname, hown, hlayout⟩ := exists_target h ha halias
  have hne : t ≠ a := by
    rintro rfl
    rw [hown] at halias
    cases halias
  refine ⟨t, ?_, ?_, ?_, mirrors_of_layout_eq h ha ht hlayout.symm⟩
  · exact ((finds_of_nodup (names_nodup h) target).1 t).mpr ⟨ht, hname⟩
  · intro hid
    exact hne (List.inj_on_of_nodup_map (ids_nodup h) ht ha hid)
  · intro hcommand
    exact hne (List.inj_on_of_nodup_map (commands_nodup h) ht ha hcommand)

/-- The alias that is declared in front of the message that it names. -/
theorem mirrors_target_square :
    ofDecls "1" pixelDecls = .ok pixelCatalogue ∧
      ⟨"Square", "square", 150, "", some "Pixel", pixelLayout⟩ ∈ pixelCatalogue.messages ∧
      pixelCatalogue.Mirrors ⟨"Square", "square", 150, "", some "Pixel", pixelLayout⟩
        ⟨"Pixel", "pixel", 149, "", none, pixelLayout⟩ ∧
      pixelCatalogue.encode ⟨3, 149, [.int 0x102]⟩ = .ok [0, 2, 149, 3, 1, 2] ∧
      pixelCatalogue.encode ⟨3, 150, [.int 0x102]⟩ = .ok [0, 2, 150, 3, 1, 2] := by
  have hmem : ⟨"Square", "square", 150, "", some "Pixel", pixelLayout⟩
      ∈ pixelCatalogue.messages := List.mem_cons_of_mem _ List.mem_cons_self
  have hframe : pixelCatalogue.encode ⟨3, 149, [.int 0x102]⟩ = .ok [0, 2, 149, 3, 1, 2] := by cbv
  obtain ⟨t, ht, -, -, hmirrors⟩ := mirrors_target ofDecls_pixelDecls hmem rfl
  have hpixel : t = ⟨"Pixel", "pixel", 149, "", none, pixelLayout⟩ := by
    cases ht
    rfl
  rw [hpixel] at hmirrors
  refine ⟨ofDecls_pixelDecls, hmem, hmirrors, hframe, ?_⟩
  rw [hmirrors.encode 3 [.int 0x102], hframe]
  rfl

end Catalogue

end WireSchema
