import Mathlib
import WireSchema.Proofs.Schema.Catalogue

/-!
# When a catalogue is built, and what it holds

Declared messages make up a catalogue exactly when they are consistent: their names, commands and
numbers are distinct, the numbers fit in a byte, the fields of each have a layout, and an alias
names a message with fields of its own, wherever that is declared. The layouts are computed first,
under distinct names, so that looking up a name finds the layout of just one declaration.

* `Catalogue.HasCommand` — the command of a declaration, given or not;
* `Catalogue.Consistent` — what the declarations must fulfil;
* `Catalogue.exists_layouts_iff`, `Catalogue.lookup_layouts` — the layouts by name;
* `Catalogue.lookup_layoutName`, `Catalogue.messageOf_iff_defines` — the message of a declaration;
* `Catalogue.exists_ofDecls_iff` — a catalogue is built just if its declarations are consistent;
* `Catalogue.ids_ascending`, `Catalogue.exists_defined`, `Catalogue.finds_of_nodup` — its messages
  and how they are found;
* `Catalogue.ofDecls_exact` — all of this together.
-/

namespace WireSchema

namespace Catalogue

/-! ### Declarations and their messages -/

/-- A message with a name is declared with fields of its own, and they have this layout. -/
def Provides (decls : List MessageDecl) (name : String) (l : Layout) : Prop :=
  ∃ d ∈ decls, ∃ fields, d.body = .fields fields ∧ name = d.name ∧
    Layout.ofDecls d.name fields = .ok l

/-- The command of a declared message: the one that is given, or else its name in lower case. -/
inductive HasCommand (d : MessageDecl) : String → Prop
  | given {command : String} (h : d.command = some command) : HasCommand d command
  | lowered (h : d.command = none) :
      HasCommand d (String.ofList (Text.lowerCase d.name.toList))

/-- Declared messages that make up a catalogue. -/
structure Consistent (decls : List MessageDecl) : Prop where
  names : (decls.map MessageDecl.name).Nodup
  commands : decls.Pairwise fun d e => ∀ command, HasCommand d command → ¬HasCommand e command
  ids : (decls.map MessageDecl.id).Nodup
  bytes : ∀ d ∈ decls, d.id ≤ 255
  layouts : ∀ d ∈ decls, ∀ fields, d.body = .fields fields →
    ∃ l, Layout.ofDecls d.name fields = .ok l
  targets : ∀ d ∈ decls, ∀ target, d.body = .aliasOf target →
    ∃ e ∈ decls, e.name = target ∧ ∃ fields, e.body = .fields fields

/-- The layout of a declared message: that of its own fields, or that of the fields of the message
that it names. -/
def HasLayout (decls : List MessageDecl) (d : MessageDecl) (l : Layout) : Prop :=
  match d.body with
  | .fields fields => Layout.ofDecls d.name fields = .ok l
  | .aliasOf target => Provides decls target l

/-- A message that is defined by one of several declarations. -/
structure Defines (decls : List MessageDecl) (d : MessageDecl) (m : MessageDef) : Prop where
  name : m.name = d.name
  command : HasCommand d m.command
  id : m.id.toNat = d.id
  comment : m.comment = d.comment
  aliasOf : m.aliasOf = d.body.target?
  layout : HasLayout decls d m.layout

/-- The messages of a list are found by a key: a message with the key if there is one, which is then
the only one, and nothing otherwise. -/
def Finds {κ : Type} (messages : List MessageDef) (key : MessageDef → κ)
    (find? : κ → Option MessageDef) : Prop :=
  ∀ k, (∀ m, find? k = some m ↔ m ∈ messages ∧ key m = k) ∧
    (find? k = none ↔ ∀ m ∈ messages, key m ≠ k)

variable {version : String} {decls : List MessageDecl} {known : List (String × Layout)}
  {c : Catalogue} {d : MessageDecl} {m : MessageDef} {l : Layout} {name : String}

/-! ### Commands -/

/-- A declared message has one command. -/
theorem hasCommand_iff {command : String} : HasCommand d command ↔ command = d.commandName := by
  unfold MessageDecl.commandName
  constructor
  · intro h
    cases h with
    | given h => rw [h, Option.getD_some]
    | lowered h => rw [h, Option.getD_none]
  · rintro rfl
    cases hcommand : d.command with
    | some command => exact .given hcommand
    | none => exact .lowered hcommand

theorem pairwise_hasCommand_iff :
    (decls.Pairwise fun d e => ∀ command, HasCommand d command → ¬HasCommand e command) ↔
      (decls.map MessageDecl.commandName).Nodup := by
  rw [List.Nodup, List.pairwise_map]
  simp only [hasCommand_iff, forall_eq, ne_eq]

/-! ### Layouts by name -/

/-- Declared messages with distinct names are one message if their names are equal. -/
theorem eq_of_name_eq (hnames : (decls.map MessageDecl.name).Nodup) {e : MessageDecl}
    (hd : d ∈ decls) (he : e ∈ decls) (h : d.name = e.name) : d = e :=
  List.inj_on_of_nodup_map hnames hd he h

/-- The layouts by name are complete just if all declared fields have one. -/
theorem exists_layouts_iff (done : List (String × Layout)) :
    (∃ known, layouts done decls = .ok known) ↔
      ∀ d ∈ decls, ∀ fields, d.body = .fields fields →
        ∃ l, Layout.ofDecls d.name fields = .ok l := by
  induction decls generalizing done with
  | nil => exact ⟨fun _ d hd => absurd hd List.not_mem_nil, fun _ => ⟨done, rfl⟩⟩
  | cons d rest ih =>
    rw [layouts, List.forall_mem_cons]
    cases hbody : d.body with
    | aliasOf target =>
      show (∃ known, layouts done rest = .ok known) ↔ _
      rw [ih]
      exact ⟨fun h => ⟨fun _ hfields => MessageBody.noConfusion hfields, h⟩, And.right⟩
    | fields fields =>
      cases hlayout : Layout.ofDecls d.name fields with
      | error e =>
        constructor
        · rintro ⟨known, hknown⟩
          simp only [hlayout] at hknown
          cases hknown
        · intro h
          obtain ⟨l, hl⟩ := h.1 fields rfl
          cases hlayout.symm.trans hl
      | ok l =>
        simp only [hlayout]
        rw [ih]
        refine ⟨fun h => ⟨fun fields' hfields => ?_, h⟩, And.right⟩
        cases hfields
        exact ⟨l, hlayout⟩

/-- Where names are distinct, the layout that is kept under a name is that of the fields declared
under it. -/
theorem lookup_layouts (hnames : (decls.map MessageDecl.name).Nodup)
    (h : layouts [] decls = .ok known) : known.lookup name = some l ↔ Provides decls name l := by
  have hmem : ∀ l, (name, l) ∈ known ↔ Provides decls name l := fun l =>
    (mem_layouts h).trans (or_iff_right List.not_mem_nil)
  have hunique : ∀ l l', Provides decls name l → Provides decls name l' → l = l' := by
    rintro l l' ⟨d, hd, fields, hbody, hname, hl⟩ ⟨e, he, fields', hbody', hname', hl'⟩
    have hsame := eq_of_name_eq hnames hd he (hname.symm.trans hname')
    subst hsame
    cases hbody.symm.trans hbody'
    exact Except.ok.inj (hl.symm.trans hl')
  have hfound : ∀ l, known.lookup name = some l → Provides decls name l := by
    intro l hlookup
    obtain ⟨before, after, hknown, -⟩ := List.lookup_eq_some_iff.mp hlookup
    exact (hmem l).mp (hknown ▸ List.mem_append_right _ List.mem_cons_self)
  refine ⟨hfound l, fun hl => ?_⟩
  cases hlookup : known.lookup name with
  | none =>
    have hne := List.lookup_eq_none_iff.mp hlookup (name, l) ((hmem l).mpr hl)
    exact absurd hne (by simp)
  | some l' => rw [hunique l l' hl (hfound l' hlookup)]

/-! ### Messages -/

/-- A message with fields of its own has their layout under its name. -/
theorem provides_own (hnames : (decls.map MessageDecl.name).Nodup) (hd : d ∈ decls)
    {fields : List FieldDecl} (hbody : d.body = .fields fields) :
    Provides decls d.name l ↔ Layout.ofDecls d.name fields = .ok l := by
  constructor
  · rintro ⟨e, he, fields', hbody', hname, hl⟩
    have hsame := eq_of_name_eq hnames hd he hname
    subst hsame
    cases hbody.symm.trans hbody'
    exact hl
  · exact fun hl => ⟨d, hd, fields, hbody, rfl, hl⟩

/-- The layout that is kept for a declared message is its layout. -/
theorem lookup_layoutName (hnames : (decls.map MessageDecl.name).Nodup)
    (hknown : layouts [] decls = .ok known) (hd : d ∈ decls) :
    known.lookup d.layoutName = some l ↔ HasLayout decls d l := by
  rw [lookup_layouts hnames hknown, MessageDecl.layoutName, HasLayout]
  cases hbody : d.body with
  | fields fields => exact provides_own hnames hd hbody
  | aliasOf target => exact Iff.rfl

/-- The message of a declaration is the one that it defines. -/
theorem messageOf_iff_defines (hnames : (decls.map MessageDecl.name).Nodup)
    (hknown : layouts [] decls = .ok known) (hd : d ∈ decls) (hbyte : d.id ≤ 255) :
    messageOf known d = .ok m ↔ Defines decls d m := by
  have hid : (UInt8.ofNat d.id).toNat = d.id := by
    rw [UInt8.toNat_ofNat']
    omega
  rw [messageOf_iff]
  constructor
  · rintro ⟨l, hlookup, rfl⟩
    exact ⟨rfl, hasCommand_iff.mpr rfl, hid, rfl, rfl,
      (lookup_layoutName hnames hknown hd).mp hlookup⟩
  · intro h
    refine ⟨m.layout, (lookup_layoutName hnames hknown hd).mpr h.layout, ?_⟩
    have hsame : m.id = UInt8.ofNat d.id := UInt8.toNat_inj.mp (h.id.trans hid.symm)
    rw [← h.name, ← hasCommand_iff.mp h.command, ← hsame, ← h.comment, ← h.aliasOf]

/-- Consistent declarations define a message each. -/
theorem Consistent.exists_defines (hc : Consistent decls) (hd : d ∈ decls) :
    ∃ m, Defines decls d m := by
  have hlayout : ∃ l, HasLayout decls d l := by
    unfold HasLayout
    cases hbody : d.body with
    | fields fields => exact hc.layouts d hd fields hbody
    | aliasOf target =>
      obtain ⟨e, he, hname, fields, hfields⟩ := hc.targets d hd target hbody
      obtain ⟨l, hl⟩ := hc.layouts e he fields hfields
      exact ⟨l, e, he, fields, hfields, hname.symm, hl⟩
  obtain ⟨l, hl⟩ := hlayout
  have hbyte := hc.bytes d hd
  refine ⟨⟨d.name, d.commandName, UInt8.ofNat d.id, d.comment, d.body.target?, l⟩, rfl,
    hasCommand_iff.mpr rfl, ?_, rfl, rfl, hl⟩
  rw [UInt8.toNat_ofNat']
  omega

/-! ### Building -/

/-- Messages differ from each other just if their names, commands and numbers are distinct. -/
theorem pairwise_differ_iff :
    decls.Pairwise Differ ↔ (decls.map MessageDecl.name).Nodup ∧
      (decls.map MessageDecl.commandName).Nodup ∧ (decls.map MessageDecl.id).Nodup := by
  have hkey : ∀ {κ : Type} (key : MessageDecl → κ),
      (decls.map key).Nodup ↔ decls.Pairwise fun a b => key a ≠ key b := fun _ => List.pairwise_map
  rw [hkey, hkey, hkey, ← List.pairwise_and_iff, ← List.pairwise_and_iff]
  rfl

/-- A catalogue is built from declarations just if they are consistent. -/
theorem exists_ofDecls_iff : (∃ c, ofDecls version decls = .ok c) ↔ Consistent decls := by
  constructor
  · rintro ⟨c, h⟩
    obtain ⟨known, messages, hcheck, hknown, hmessages, -⟩ := ofDecls_iff.mp h
    obtain ⟨hbyte, hdiffer⟩ := checkDistinct_iff.mp hcheck
    obtain ⟨hnames, hcommands, hids⟩ := pairwise_differ_iff.mp hdiffer
    have hle : ∀ d ∈ decls, d.id ≤ 255 := fun d hd => Nat.lt_succ_iff.mp (hbyte d hd).1
    refine ⟨hnames, pairwise_hasCommand_iff.mpr hcommands, hids, hle,
      (exists_layouts_iff []).mp ⟨known, hknown⟩, ?_⟩
    intro d hd target hbody
    obtain ⟨m, -, hm⟩ := exists_of_forall₂ hmessages.flip hd
    have hlayout := ((messageOf_iff_defines hnames hknown hd (hle d hd)).mp hm).layout
    rw [HasLayout, hbody] at hlayout
    obtain ⟨e, he, fields, hfields, hname, -⟩ := hlayout
    exact ⟨e, he, hname.symm, fields, hfields⟩
  · intro hc
    have hcheck : checkDistinct [] decls = .ok () := by
      refine checkDistinct_iff.mpr ⟨fun d hd => ⟨Nat.lt_succ_iff.mpr (hc.bytes d hd), ?_⟩,
        pairwise_differ_iff.mpr ⟨hc.names, pairwise_hasCommand_iff.mp hc.commands, hc.ids⟩⟩
      exact fun e he => absurd he List.not_mem_nil
    obtain ⟨known, hknown⟩ := (exists_layouts_iff []).mpr hc.layouts
    obtain ⟨messages, hmessages⟩ :
        ∃ messages, List.Forall₂ (fun d m => messageOf known d = .ok m) decls messages := by
      refine exists_forall₂ fun d hd => ?_
      obtain ⟨m, hm⟩ := hc.exists_defines hd
      exact ⟨m, (messageOf_iff_defines hc.names hknown hd (hc.bytes d hd)).mpr hm⟩
    exact ⟨_, ofDecls_iff.mpr ⟨known, messages, hcheck, hknown, hmessages, rfl⟩⟩

/-! ### The messages of a catalogue -/

theorem version_of_ofDecls (h : ofDecls version decls = .ok c) : c.version = version := by
  obtain ⟨known, messages, -, -, -, rfl⟩ := ofDecls_iff.mp h
  rfl

/-- A catalogue holds the messages that its declarations define, one for each. -/
theorem exists_defined (h : ofDecls version decls = .ok c) :
    ∃ messages, List.Forall₂ (Defines decls) decls messages ∧ c.messages.Perm messages := by
  have hc := exists_ofDecls_iff.mp ⟨c, h⟩
  obtain ⟨known, messages, -, hknown, hmessages, hperm⟩ := ofDecls_eq_ok h
  refine ⟨messages, ?_, hperm⟩
  rw [List.forall₂_iff_get] at hmessages ⊢
  refine ⟨hmessages.1, fun i hi hi' => ?_⟩
  have hd := List.get_mem decls ⟨i, hi⟩
  exact (messageOf_iff_defines hc.names hknown hd (hc.bytes _ hd)).mp (hmessages.2 i hi hi')

/-- The messages of a catalogue stand in the order of their numbers. -/
theorem ids_ascending (h : ofDecls version decls = .ok c) :
    c.messages.Pairwise fun a b => a.id < b.id := by
  have hdistinct : c.messages.Pairwise fun a b => a.id ≠ b.id :=
    List.pairwise_map.mp (ids_nodup h)
  have hsorted : c.messages.Pairwise fun a b => a.id ≤ b.id := by
    obtain ⟨known, messages, -, -, -, rfl⟩ := ofDecls_iff.mp h
    refine (List.pairwise_mergeSort ?_ ?_ messages).imp fun hab => of_decide_eq_true hab
    · intro a b d hab hbd
      exact decide_eq_true (UInt8.le_trans (of_decide_eq_true hab) (of_decide_eq_true hbd))
    · intro a b
      rw [Bool.or_eq_true, decide_eq_true_eq, decide_eq_true_eq]
      exact UInt8.le_total a.id b.id
  exact (hsorted.and hdistinct).imp fun hab => UInt8.lt_of_le_of_ne hab.1 hab.2

/-- The names of a catalogue are distinct. -/
theorem names_nodup (h : ofDecls version decls = .ok c) :
    (c.messages.map MessageDef.name).Nodup :=
  nodup_of_differ h (fun _ _ _ hm => (messageOf_eq_ok hm).1) fun _ _ _ _ hdiffer => hdiffer.1

/-- An alias has the layout of the message that it names, which has fields of its own. -/
theorem exists_target (h : ofDecls version decls = .ok c) (hm : m ∈ c.messages) {target : String}
    (halias : m.aliasOf = some target) :
    ∃ t ∈ c.messages, t.name = target ∧ t.aliasOf = none ∧ t.layout = m.layout := by
  obtain ⟨messages, hdefines, hperm⟩ := exists_defined h
  obtain ⟨d, -, hd⟩ := exists_of_forall₂ hdefines (hperm.mem_iff.mp hm)
  have hbody : d.body = .aliasOf target := by
    have htarget := hd.aliasOf.symm.trans halias
    cases hbody : d.body with
    | fields fields =>
      rw [hbody] at htarget
      cases htarget
    | aliasOf target' =>
      rw [hbody] at htarget
      exact congrArg MessageBody.aliasOf (Option.some.inj htarget)
  have hlayout := hd.layout
  rw [HasLayout, hbody] at hlayout
  obtain ⟨e, he, fields, hfields, hname, hl⟩ := hlayout
  obtain ⟨t, ht, hdefined⟩ := exists_of_forall₂ hdefines.flip he
  have hshared := hdefined.layout
  rw [HasLayout, hfields] at hshared
  refine ⟨t, hperm.mem_iff.mpr ht, hdefined.name.trans hname.symm, ?_, ?_⟩
  · rw [hdefined.aliasOf, hfields]
    rfl
  · exact Except.ok.inj (hshared.symm.trans hl)

/-! ### Finding messages -/

/-- Where the messages of a list differ in a key, they are found by it. -/
theorem finds_of_nodup {κ : Type} [BEq κ] [LawfulBEq κ] {messages : List MessageDef}
    {key : MessageDef → κ} (hnodup : (messages.map key).Nodup) :
    Finds messages key fun k => messages.find? fun m => key m == k := by
  intro k
  constructor
  · intro m
    constructor
    · intro h
      have hkey := List.find?_some (p := fun a => key a == k) h
      exact ⟨List.mem_of_find?_eq_some h, eq_of_beq hkey⟩
    · rintro ⟨hm, rfl⟩
      exact find?_key_of_mem hnodup hm
  · rw [List.find?_eq_none]
    simp only [beq_iff_eq]

end Catalogue

end WireSchema
