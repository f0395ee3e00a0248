import Mathlib
import WireSchema.Proofs.Schema.Layout
import WireSchema.Schema.Catalogue

/-!
# Catalogues that have been checked

The messages of a catalogue of declarations: each comes from one declaration, its layout is well
formed, and no two share a name, a command or a number, so that looking one up by any of the three
finds it.

* `Catalogue.messageOf_iff`, `Catalogue.ofDecls_iff` — the message of a declaration, and the steps
  of building a catalogue;
* `Catalogue.wellFormed_of_mem` — the layout of every message is well formed;
* `Catalogue.isWord_of_mem` — the name of every field is a word;
* `Catalogue.byId?_eq_some`, `Catalogue.byCommand?_eq_some` — what looking up gives;
* `Catalogue.byId?_of_mem`, `Catalogue.byCommand?_of_mem` — every message is found.
-/

namespace WireSchema

/-- The message that an alias names. -/
def MessageBody.target? : MessageBody → Option String
  | fields _ => none
  | aliasOf target => some target

/-- The name that the layout of a declared message is kept under: that of the message which it
names, or its own. -/
def MessageDecl.layoutName (d : MessageDecl) : String :=
  d.body.target?.getD d.name

namespace Catalogue

/-! ### The messages of declarations -/

/-- Two messages that differ in name, command and number. -/
def Differ (a b : MessageDecl) : Prop :=
  a.name ≠ b.name ∧ a.commandName ≠ b.commandName ∧ a.id ≠ b.id

/-- A message passes the check just if its number fits in a byte and it differs from the messages
before it. -/
theorem checkAgainst_iff {earlier : List MessageDecl} {d : MessageDecl} :
    checkAgainst earlier d = .ok () ↔ d.id < 256 ∧ ∀ e ∈ earlier, Differ e d := by
  constructor
  · intro h
    unfold checkAgainst at h
    split at h
    · cases h
    rename_i hname
    split at h
    · cases h
    rename_i hcommand
    split at h
    · cases h
    rename_i hbyte
    split at h
    · cases h
    rename_i hid
    simp only [List.any_eq_true, decide_eq_true_eq, not_exists, not_and] at hname hcommand hid
    exact ⟨by omega, fun e he => ⟨hname e he, hcommand e he, hid e he⟩⟩
  · rintro ⟨hbyte, hdiffer⟩
    have hnone : ∀ same : MessageDecl → Prop, ∀ [DecidablePred same], (∀ e ∈ earlier, ¬same e) →
        ¬(earlier.any fun e => decide (same e)) = true := by
      intro same _ hsame hany
      obtain ⟨e, he, heq⟩ := List.any_eq_true.mp hany
      exact hsame e he (of_decide_eq_true heq)
    unfold checkAgainst
    rw [if_neg (hnone _ fun e he => (hdiffer e he).1),
      if_neg (hnone _ fun e he => (hdiffer e he).2.1), if_neg (Nat.not_le.mpr hbyte),
      if_neg (hnone _ fun e he => (hdiffer e he).2.2)]

/-- Messages pass the checks one after the other just if their numbers fit in a byte and they differ
from each other and from the messages before them. -/
theorem checkDistinct_iff {earlier decls : List MessageDecl} :
    checkDistinct earlier decls = .ok () ↔
      (∀ d ∈ decls, d.id < 256 ∧ ∀ e ∈ earlier, Differ e d) ∧ decls.Pairwise Differ := by
  induction decls generalizing earlier with
  | nil => simp [checkDistinct]
  | cons d rest ih =>
    have hstep : checkDistinct earlier (d :: rest) = .ok () ↔
        checkAgainst earlier d = .ok () ∧ checkDistinct (d :: earlier) rest = .ok () := by
      rw [checkDistinct]
      cases checkAgainst earlier d <;> simp
    rw [hstep, checkAgainst_iff, ih, List.forall_mem_cons, List.pairwise_cons]
    simp only [List.forall_mem_cons]
    constructor
    · rintro ⟨hd, hrest, hpair⟩
      exact ⟨⟨hd, fun x hx => ⟨(hrest x hx).1, (hrest x hx).2.2⟩⟩,
        fun x hx => (hrest x hx).2.1, hpair⟩
    · rintro ⟨⟨hd, hrest⟩, hfirst, hpair⟩
      exact ⟨hd, fun x hx => ⟨(hrest x hx).1, hfirst x hx, (hrest x hx).2⟩, hpair⟩

/-- The layouts that are kept by name are those of the messages with fields of their own. -/
theorem mem_layouts {done known : List (String × Layout)} {decls : List MessageDecl}
    (h : layouts done decls = .ok known) {entry : String × Layout} :
    entry ∈ known ↔ entry ∈ done ∨ ∃ d ∈ decls, ∃ fields, d.body = .fields fields ∧
      entry.1 = d.name ∧ Layout.ofDecls d.name fields = .ok entry.2 := by
  induction decls generalizing done with
  | nil =>
    cases h
    simp
  | cons d rest ih =>
    rw [layouts] at h
    split at h <;> rename_i hbody
    · rw [ih h]
      simp [hbody]
    · split at h
      · cases h
      rename_i layout hlayout
      rw [ih h, List.mem_cons, List.exists_mem_cons_iff, or_comm (a := entry = _), or_assoc]
      refine or_congr_right (or_congr_left ⟨?_, ?_⟩)
      · rintro rfl
        exact ⟨_, hbody, rfl, hlayout⟩
      · rintro ⟨fields, hfields, hname, hentry⟩
        rw [hbody] at hfields
        cases hfields
        rw [hlayout] at hentry
        exact Prod.ext hname (Except.ok.inj hentry).symm

/-- A message is made of the parts of its declaration, and of the layout that is kept for it. -/
theorem messageOf_iff {known : List (String × Layout)} {d : MessageDecl} {m : MessageDef} :
    messageOf known d = .ok m ↔ ∃ l, known.lookup d.layoutName = some l ∧
      m = ⟨d.name, d.commandName, UInt8.ofNat d.id, d.comment, d.body.target?, l⟩ := by
  unfold messageOf MessageDecl.layoutName
  cases d.body <;> simp only [MessageBody.target?, Option.getD_none, Option.getD_some]
  all_goals
    constructor
    · intro h
      split at h <;> cases h
      rename_i l hlookup
      exact ⟨l, hlookup, rfl⟩
    · rintro ⟨l, hlookup, rfl⟩
      rw [hlookup]

/-- What a message takes from its declaration. -/
theorem messageOf_eq_ok {known : List (String × Layout)} {d : MessageDecl} {m : MessageDef}
    (h : messageOf known d = .ok m) :
    m.name = d.name ∧ m.command = d.commandName ∧ m.id = UInt8.ofNat d.id ∧
      ∃ target, (target, m.layout) ∈ known := by
  obtain ⟨l, hlookup, rfl⟩ := messageOf_iff.mp h
  obtain ⟨before, after, hknown, -⟩ := List.lookup_eq_some_iff.mp hlookup
  refine ⟨rfl, rfl, rfl, d.layoutName, ?_⟩
  rw [hknown]
  exact List.mem_append_right _ List.mem_cons_self

variable {version : String} {decls : List MessageDecl} {c : Catalogue}

/-- The steps of building a catalogue, and what it is built of. -/
theorem ofDecls_iff :
    ofDecls version decls = .ok c ↔ ∃ known messages, checkDistinct [] decls = .ok () ∧
      layouts [] decls = .ok known ∧
      List.Forall₂ (fun d m => messageOf known d = .ok m) decls messages ∧
      c = ⟨version, messages.mergeSort fun a b => a.id ≤ b.id⟩ := by
  rw [ofDecls, bind_eq_ok]
  constructor
  · rintro ⟨⟨⟩, hcheck, h⟩
    obtain ⟨known, hknown, h⟩ := bind_eq_ok.mp h
    obtain ⟨messages, hmessages, h⟩ := bind_eq_ok.mp h
    exact ⟨known, messages, hcheck, hknown, mapM_eq_ok.mp hmessages, (Except.ok.inj h).symm⟩
  · rintro ⟨known, messages, hcheck, hknown, hmessages, rfl⟩
    exact ⟨(), hcheck, bind_eq_ok.mpr ⟨known, hknown,
      bind_eq_ok.mpr ⟨messages, mapM_eq_ok.mpr hmessages, rfl⟩⟩⟩

/-- What a catalogue is built from. -/
theorem ofDecls_eq_ok (h : ofDecls version decls = .ok c) :
    ∃ known messages, checkDistinct [] decls = .ok () ∧ layouts [] decls = .ok known ∧
      List.Forall₂ (fun d m => messageOf known d = .ok m) decls messages ∧
      c.messages.Perm messages := by
  obtain ⟨known, messages, hcheck, hknown, hmessages, rfl⟩ := ofDecls_iff.mp h
  exact ⟨known, messages, hcheck, hknown, hmessages, List.mergeSort_perm _ _⟩

/-- The layout of each message is the layout of declared fields. -/
theorem layout_of_mem (h : ofDecls version decls = .ok c) {m : MessageDef} (hm : m ∈ c.messages) :
    ∃ owner fields, Layout.ofDecls owner fields = .ok m.layout := by
  obtain ⟨known, messages, -, hknown, hforall, hperm⟩ := ofDecls_eq_ok h
  obtain ⟨d, -, hmessage⟩ := exists_of_forall₂ hforall (hperm.mem_iff.mp hm)
  obtain ⟨-, -, -, target, hmem⟩ := messageOf_eq_ok hmessage
  rcases (mem_layouts hknown).mp hmem with hnil | ⟨e, -, fields, -, -, hbuilt⟩
  · exact absurd hnil List.not_mem_nil
  · exact ⟨_, _, hbuilt⟩

/-- The layout of each message is well formed. -/
theorem wellFormed_of_mem (h : ofDecls version decls = .ok c) {m : MessageDef}
    (hm : m ∈ c.messages) : m.layout.WellFormed := by
  obtain ⟨owner, fields, hlayout⟩ := layout_of_mem h hm
  exact Layout.wellFormed_of_ofDecls hlayout

/-- The name of each field is a word. -/
theorem isWord_of_mem (h : ofDecls version decls = .ok c) {m : MessageDef} (hm : m ∈ c.messages)
    {f : Field} (hf : f ∈ m.layout.fields) : Text.IsWord f.name.toList := by
  obtain ⟨owner, fields, hlayout⟩ := layout_of_mem h hm
  obtain ⟨d, isLast, prevMin, prevMax, hdecl⟩ := Layout.ofDecl_of_mem hlayout hf
  exact Field.isWord_of_ofDecl hdecl

/-- Messages are distinct in what declarations are distinct in. -/
theorem nodup_of_differ {κ : Type} {key : MessageDef → κ} {declared : MessageDecl → κ}
    (h : ofDecls version decls = .ok c)
    (hkey : ∀ known d m, messageOf known d = .ok m → key m = declared d)
    (hdiffer : ∀ a b : MessageDecl,
      a.id < 256 → b.id < 256 → Differ a b → declared a ≠ declared b) :
    (c.messages.map key).Nodup := by
  obtain ⟨known, messages, hcheck, -, hforall, hperm⟩ := ofDecls_eq_ok h
  have hkeys : messages.map key = decls.map declared := by
    clear h hperm hcheck
    induction hforall with
    | nil => rfl
    | cons hd _ ih => rw [List.map_cons, List.map_cons, ih, hkey _ _ _ hd]
  obtain ⟨hbyte, hdistinct⟩ := checkDistinct_iff.mp hcheck
  rw [(hperm.map key).nodup_iff, hkeys]
  refine List.pairwise_map.mpr (hdistinct.imp_of_mem fun ha hb hab => ?_)
  exact hdiffer _ _ (hbyte _ ha).1 (hbyte _ hb).1 hab

/-- The commands of a catalogue are distinct. -/
theorem commands_nodup (h : ofDecls version decls = .ok c) :
    (c.messages.map MessageDef.command).Nodup :=
  nodup_of_differ h (fun _ _ _ hm => (messageOf_eq_ok hm).2.1) fun _ _ _ _ hdiffer => hdiffer.2.1

/-- The numbers of a catalogue are distinct. -/
theorem ids_nodup (h : ofDecls version decls = .ok c) :
    (c.messages.map MessageDef.id).Nodup := by
  refine nodup_of_differ h
    (fun _ _ _ hm => (messageOf_eq_ok hm).2.2.1) fun a b ha hb hdiffer heq => hdiffer.2.2 ?_
  have hmod := congrArg UInt8.toNat heq
  simp only [UInt8.toNat_ofNat'] at hmod
  omega

/-! ### Looking up -/

/-- A message found by its number is one of the catalogue and has that number. -/
theorem byId?_eq_some {id : UInt8} {m : MessageDef} (h : c.byId? id = some m) :
    m ∈ c.messages ∧ m.id = id := by
  unfold byId? at h
  have hid := List.find?_some h
  exact ⟨List.mem_of_find?_eq_some h, eq_of_beq hid⟩

/-- A message found by its command is one of the catalogue and has that command. -/
theorem byCommand?_eq_some {command : String} {m : MessageDef}
    (h : c.byCommand? command = some m) : m ∈ c.messages ∧ m.command = command := by
  unfold byCommand? at h
  have hcommand := List.find?_some h
  exact ⟨List.mem_of_find?_eq_some h, eq_of_beq hcommand⟩

/-- Where the messages of a list differ in a key, each is found by its own. -/
theorem find?_key_of_mem {κ : Type} [BEq κ] [LawfulBEq κ] {key : MessageDef → κ}
    {messages : List MessageDef} (hnodup : (messages.map key).Nodup) {m : MessageDef}
    (hm : m ∈ messages) : messages.find? (fun a => key a == key m) = some m := by
  induction messages with
  | nil => exact absurd hm List.not_mem_nil
  | cons a messages ih =>
    rw [List.map_cons, List.nodup_cons] at hnodup
    rcases List.mem_cons.mp hm with rfl | hm
    · rw [List.find?_cons, beq_self_eq_true]
    · have hne : (key a == key m) = false := by
        rw [beq_eq_false_iff_ne]
        intro heq
        exact hnodup.1 (heq ▸ List.mem_map_of_mem hm)
      rw [List.find?_cons, hne]
      exact ih hnodup.2 hm

/-- A message is found by its command. -/
theorem byCommand?_of_mem (h : ofDecls version decls = .ok c) {m : MessageDef}
    (hm : m ∈ c.messages) : c.byCommand? m.command = some m :=
  find?_key_of_mem (commands_nodup h) hm

/-- A message is found by its number. -/
theorem byId?_of_mem (h : ofDecls version decls = .ok c) {m : MessageDef} (hm : m ∈ c.messages) :
    c.byId? m.id = some m :=
  find?_key_of_mem (ids_nodup h) hm

end Catalogue

end WireSchema
