import Mathlib
import WireSchema.Proofs.Schema.Building
import WireSchema.Schema.Digest
import WireSchema.Schema.Listing

/-!
# The order of declarations

A protocol can be declared in any order. What declarations must fulfil, and the messages that they
define, depend on the declared messages alone and not on their places: an alias may stand before the
message that it names, and which of two messages with one name comes first does not matter for
whether there are two. The messages of a catalogue stand in the order of their distinct numbers, and
a list in such an order is given by its members. So two orders of the same declarations make one
catalogue, or none.

* `Catalogue.Consistent.perm`, `Catalogue.Defines.mono` — declarations in another order;
* `Catalogue.mem_messages_iff` — the messages of a catalogue are those that its declarations define;
* `Catalogue.eq_of_perm` — it is the same catalogue;
* `Catalogue.ofDecls_perm` — whether there is one, and all that can be asked of it.
-/

namespace WireSchema

namespace Catalogue

variable {version : String} {decls decls' : List MessageDecl} {c c' : Catalogue} {d : MessageDecl}
  {m : MessageDef} {l : Layout} {name : String}

/-! ### Declarations in another order -/

theorem Provides.mono (hsub : decls ⊆ decls') (h : Provides decls name l) :
    Provides decls' name l := by
  obtain ⟨d, hd, hfields⟩ := h
  exact ⟨d, hsub hd, hfields⟩

theorem HasLayout.mono (hsub : decls ⊆ decls') (h : HasLayout decls d l) :
    HasLayout decls' d l := by
  unfold HasLayout at h ⊢
  cases hbody : d.body with
  | fields fields =>
    rw [hbody] at h
    exact h
  | aliasOf target =>
    rw [hbody] at h
    exact Provides.mono hsub h

/-- A declaration defines the same message among more declarations. -/
theorem Defines.mono (hsub : decls ⊆ decls') (h : Defines decls d m) : Defines decls' d m :=
  ⟨h.name, h.command, h.id, h.comment, h.aliasOf, h.layout.mono hsub⟩

/-- Consistent declarations are consistent in every order. -/
theorem Consistent.perm (hperm : decls.Perm decls') (hc : Consistent decls) :
    Consistent decls' where
  names := (hperm.map MessageDecl.name).nodup_iff.mp hc.names
  commands := pairwise_hasCommand_iff.mpr
    ((hperm.map MessageDecl.commandName).nodup_iff.mp (pairwise_hasCommand_iff.mp hc.commands))
  ids := (hperm.map MessageDecl.id).nodup_iff.mp hc.ids
  bytes := fun d hd => hc.bytes d (hperm.mem_iff.mpr hd)
  layouts := fun d hd => hc.layouts d (hperm.mem_iff.mpr hd)
  targets := by
    intro d hd target hbody
    obtain ⟨e, he, htarget⟩ := hc.targets d (hperm.mem_iff.mpr hd) target hbody
    exact ⟨e, hperm.mem_iff.mp he, htarget⟩

/-! ### The messages -/

/-- The messages of a catalogue are those that its declarations define. -/
theorem mem_messages_iff (h : ofDecls version decls = .ok c) :
    m ∈ c.messages ↔ ∃ d ∈ decls, Defines decls d m := by
  constructor
  · intro hm
    obtain ⟨messages, hdefines, hperm⟩ := exists_defined h
    exact exists_of_forall₂ hdefines (hperm.mem_iff.mp hm)
  · rintro ⟨d, hd, hdefines⟩
    have hc := exists_ofDecls_iff.mp ⟨c, h⟩
    obtain ⟨known, messages, -, hknown, hmessages, hperm⟩ := ofDecls_eq_ok h
    have hm := (messageOf_iff_defines hc.names hknown hd (hc.bytes d hd)).mpr hdefines
    obtain ⟨m', hmem, hm'⟩ := exists_of_forall₂ hmessages.flip hd
    obtain rfl : m = m' := Except.ok.inj (hm.symm.trans hm')
    exact hperm.mem_iff.mpr hmem

theorem messages_subset (hsub : decls ⊆ decls') (h : ofDecls version decls = .ok c)
    (h' : ofDecls version decls' = .ok c') : c.messages ⊆ c'.messages := by
  intro m hm
  obtain ⟨d, hd, hdefines⟩ := (mem_messages_iff h).mp hm
  exact (mem_messages_iff h').mpr ⟨d, hsub hd, hdefines.mono hsub⟩

/-- Lists that stand in the order of distinct numbers are equal if they have the same members. -/
theorem eq_of_ascending {messages messages' : List MessageDef}
    (h : messages.Pairwise fun a b => a.id < b.id) (h' : messages'.Pairwise fun a b => a.id < b.id)
    (hsub : messages ⊆ messages') (hsub' : messages' ⊆ messages) : messages = messages' := by
  have hirrefl : Std.Irrefl fun a b : MessageDef => a.id < b.id :=
    ⟨fun a => UInt8.lt_irrefl a.id⟩
  have hantisymm : Std.Antisymm fun a b : MessageDef => a.id < b.id :=
    ⟨fun a b hab hba => absurd (UInt8.lt_trans hab hba) (UInt8.lt_irrefl a.id)⟩
  exact hsub.antisymm_of_pairwise h h' hsub'

/-- Declarations make the same catalogue in every order. -/
theorem eq_of_perm (hperm : decls.Perm decls') (h : ofDecls version decls = .ok c)
    (h' : ofDecls version decls' = .ok c') : c = c' := by
  have hversion : c.version = c'.version :=
    (version_of_ofDecls h).trans (version_of_ofDecls h').symm
  have hmessages : c.messages = c'.messages :=
    eq_of_ascending (ids_ascending h) (ids_ascending h') (messages_subset hperm.subset h h')
      (messages_subset hperm.symm.subset h' h)
  cases c
  cases c'
  cases hversion
  cases hmessages
  rfl

/-- The order of declarations does not matter: if a catalogue is built from them in one order, then
also in every other, and both have the same messages, listing, digest and checksum and answer every
question for a message alike. -/
theorem ofDecls_perm (version : String) (hperm : decls.Perm decls') :
    ((∃ c, ofDecls version decls = .ok c) ↔ ∃ c, ofDecls version decls' = .ok c) ∧
      ∀ c c', ofDecls version decls = .ok c → ofDecls version decls' = .ok c' →
        c.messages = c'.messages ∧ c.listing = c'.listing ∧ c.digest = c'.digest ∧
        c.checksum = c'.checksum ∧ (∀ name, c.byName? name = c'.byName? name) ∧
        (∀ command, c.byCommand? command = c'.byCommand? command) ∧
        ∀ id, c.byId? id = c'.byId? id := by
  constructor
  · rw [exists_ofDecls_iff, exists_ofDecls_iff]
    exact ⟨Consistent.perm hperm, Consistent.perm hperm.symm⟩
  · intro c c' h h'
    obtain rfl := eq_of_perm hperm h h'
    exact ⟨rfl, rfl, rfl, rfl, fun _ => rfl, fun _ => rfl, fun _ => rfl⟩

/-- An alias in front of the message that it names. -/
def pixelDecls : List MessageDecl :=
  [{ name := "Square", id := 150, command := some "square", body := .aliasOf "Pixel" },
    { name := "Pixel", id := 149, command := some "pixel", body := .fields [.short "layer u16"] }]

/-- The layout that both messages of `pixelDecls` have. -/
def pixelLayout : Layout :=
  ⟨[Field.ofScalar "layer" (.integer .u16 .plain)], 2, 2⟩

/-- The catalogue of `pixelDecls`. -/
def pixelCatalogue : Catalogue :=
  ⟨"1", [⟨"Pixel", "pixel", 149, "", none, pixelLayout⟩,
    ⟨"Square", "square", 150, "", some "Pixel", pixelLayout⟩]⟩

theorem ofDecls_pixelDecls : ofDecls "1" pixelDecls = .ok pixelCatalogue :=
  ofDecls_iff.mpr ⟨[("Pixel", pixelLayout)], pixelCatalogue.messages.reverse, by cbv, by cbv,
    .cons rfl (.cons rfl .nil), by cbv⟩

theorem ofDecls_perm_pixel :
    pixelDecls.Perm pixelDecls.reverse ∧ ofDecls "1" pixelDecls = .ok pixelCatalogue ∧
      ∃ c, ofDecls "1" pixelDecls.reverse = .ok c ∧ c.messages = pixelCatalogue.messages ∧
        c.checksum = pixelCatalogue.checksum := by
  have hperm : pixelDecls.Perm pixelDecls.reverse := (List.reverse_perm _).symm
  obtain ⟨hiff, hsame⟩ := ofDecls_perm "1" hperm
  obtain ⟨c, hc⟩ := hiff.mp ⟨_, ofDecls_pixelDecls⟩
  obtain ⟨hmessages, -, -, hchecksum, -⟩ := hsame _ c ofDecls_pixelDecls hc
  exact ⟨hperm, ofDecls_pixelDecls, c, hc, hmessages.symm, hchecksum.symm⟩

end Catalogue

end WireSchema
