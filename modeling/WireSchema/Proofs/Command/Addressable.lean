import Mathlib
import WireSchema.Proofs.Command.Reading
import WireSchema.Proofs.Schema.Catalogue

/-!
# Messages that a line can address

A line names a message by its command and the fields by their keys, and writes both as they are.
That the name of a field is one word is checked when a catalogue is made. Nothing is checked of
commands but that they differ, nor that a field has no equals sign in its name. These are the only
obstacles: a message is addressed by a line with any values, or with none at all.

* `MessageDef.spelled` — the command with given texts for the fields of a message;
* `MessageDef.Addressable` — the names of a message can stand in a line;
* `MessageDef.writable_spelled_iff` — then its commands can be written, and only then;
* `Catalogue.ofText_render_spelled_iff` — the messages that lines address.
-/

namespace WireSchema

open WireSchema.Text

/-- The command of a message with texts for its fields, in order. -/
def MessageDef.spelled (m : MessageDef) (userId : UInt8) (values : List String) : Command :=
  ⟨userId, m.command, (m.layout.fields.map Field.name).zip values, []⟩

/-- The names of a message can stand in a line: the command is a word, and does not open a block at
the end of the line, and no field has an equals sign in its name. -/
structure MessageDef.Addressable (m : MessageDef) : Prop where
  command : IsWord m.command.toList
  command_ne_brace : m.layout.fields = [] → m.command ≠ "\x7b"
  fields : ∀ f ∈ m.layout.fields, '=' ∉ f.name.toList

namespace MessageDef

variable {m : MessageDef} {userId : UInt8} {values : List String}

/-- The keys are the names of the fields. -/
theorem keys_spelled (hlength : values.length = m.layout.fields.length) :
    (m.spelled userId values).args.map Prod.fst = m.layout.fields.map Field.name := by
  apply List.map_fst_zip
  rw [List.length_map, hlength]

section Names

variable (hlength : values.length = m.layout.fields.length)
  (hwords : ∀ f ∈ m.layout.fields, IsWord f.name.toList) (hvalues : ∀ v ∈ values, v ≠ "")

include hlength hwords hvalues

theorem worded_spelled_iff :
    (m.spelled userId values).Worded ↔
      IsWord m.command.toList ∧ ∀ f ∈ m.layout.fields, '=' ∉ f.name.toList := by
  constructor
  · intro h
    refine ⟨h.name, fun f hf => ?_⟩
    have hkey : f.name ∈ (m.spelled userId values).args.map Prod.fst := by
      rw [keys_spelled hlength]
      exact List.mem_map_of_mem hf
    obtain ⟨arg, harg, hname⟩ := List.mem_map.mp hkey
    rw [← hname]
    exact (h.keys arg harg).1
  · rintro ⟨hcommand, hequals⟩
    refine ⟨hcommand, fun arg harg => ?_, fun arg harg => ?_, fun _ h => absurd h List.not_mem_nil⟩
    · obtain ⟨f, hf, hname⟩ := List.mem_map.mp (List.of_mem_zip harg).1
      rw [← hname]
      exact ⟨hequals f hf, (hwords f hf).2⟩
    · exact hvalues arg.2 (List.of_mem_zip harg).2

/-- Commands can be written of just the messages whose names can stand in a line. -/
theorem writable_spelled_iff : (m.spelled userId values).Writable ↔ m.Addressable := by
  have hworded := @worded_spelled_iff m userId values hlength hwords hvalues
  have hnone : (m.spelled userId values).args = [] ↔ m.layout.fields = [] := by
    rw [← List.map_eq_nil_iff (f := Prod.fst), keys_spelled hlength, List.map_eq_nil_iff]
  constructor
  · intro h
    obtain ⟨hcommand, hequals⟩ := hworded.mp h.toWorded
    exact ⟨hcommand, fun hfields => h.name_ne_brace (hnone.mpr hfields) rfl, hequals⟩
  · intro h
    exact ⟨hworded.mpr ⟨h.command, h.fields⟩,
      fun hargs _ => h.command_ne_brace (hnone.mp hargs)⟩

end Names

end MessageDef

namespace Catalogue

variable {version : String} {decls : List MessageDecl} {c : Catalogue} {m : MessageDef}

/-- A message of a catalogue is addressed by lines if its names can stand in one: whatever texts are
given for its fields, none of them empty, the command with these is read back from its written form.
Otherwise none of these commands is. -/
theorem ofText_render_spelled_iff (hc : ofDecls version decls = .ok c) (hm : m ∈ c.messages)
    (userId : UInt8) {values : List String} (hlength : values.length = m.layout.fields.length)
    (hvalues : ∀ v ∈ values, v ≠ "") :
    Command.ofText (m.spelled userId values).render = .ok (m.spelled userId values) ↔
      m.Addressable := by
  have hwords : ∀ f ∈ m.layout.fields, IsWord f.name.toList := fun f hf => isWord_of_mem hc hm hf
  rw [← MessageDef.writable_spelled_iff hlength hwords hvalues]
  exact ⟨Command.writable_of_ofText_render, Command.ofText_render⟩

/-- Two messages with a field each, one of them with a command of two words. -/
def layerDecls : List MessageDecl :=
  [{ name := "Layer", id := 1, command := some "new layer", body := .fields [.short "at u8"] },
    { name := "Move", id := 2, command := some "move", body := .fields [.short "at u8"] }]

/-- The message that moves a layer. -/
def moveMessage : MessageDef :=
  ⟨"Move", "move", 2, "", none, ⟨[Field.ofScalar "at" (.integer .u8 .plain)], 1, 1⟩⟩

/-- The catalogue of `layerDecls`. -/
def layerCatalogue : Catalogue :=
  ⟨"1", [⟨"Layer", "new layer", 1, "", none,
    ⟨[Field.ofScalar "at" (.integer .u8 .plain)], 1, 1⟩⟩, moveMessage]⟩

theorem ofDecls_layerDecls : ofDecls "1" layerDecls = .ok layerCatalogue := by
  cbv

theorem ofText_render_spelled_move :
    Command.ofText (moveMessage.spelled 5 ["7"]).render = .ok (moveMessage.spelled 5 ["7"]) := by
  have hmem : moveMessage ∈ layerCatalogue.messages := List.mem_cons_of_mem _ List.mem_cons_self
  refine (ofText_render_spelled_iff ofDecls_layerDecls hmem 5 rfl (by decide)).mpr ?_
  exact ⟨⟨by decide, by simp [moveMessage, isBlank]⟩, by decide, by decide⟩

/-- The second word of a command is read as an argument without an equals sign. -/
theorem not_addressable :
    ¬∀ (version : String) (decls : List MessageDecl) (c : Catalogue) (m : MessageDef)
      (userId : UInt8) (values : List String), ofDecls version decls = .ok c → m ∈ c.messages →
        values.length = m.layout.fields.length → (∀ v ∈ values, v ≠ "") →
          Command.ofText (m.spelled userId values).render = .ok (m.spelled userId values) := by
  intro h
  have hread := h "1" layerDecls layerCatalogue _ 5 ["7"] ofDecls_layerDecls List.mem_cons_self rfl
    (by decide)
  have hword := (Command.writable_of_ofText_render hread).name
  have hblank := hword.2 ' ' (by decide)
  exact absurd hblank (by decide)

end Catalogue

end WireSchema
