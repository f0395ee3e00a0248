import Mathlib
import WireSchema.Proofs.Folds
import WireSchema.Proofs.Yaml.Reordering
import WireSchema.Schema.Document

/-!
# Schema documents in another order

A schema is read entry by entry, and the first entry that is refused ends the reading. Nevertheless
the entries of every mapping may stand in any order: at the root, in a message, and in a field at
any depth. What is declared does not change, except that messages stand in the order of the text.
The order does decide which error is met first, so that only success and its result are compared.

An entry either is refused, or sets one part of what is declared so far, and names that differ set
different parts. Keys that are distinct need not be different names, since a tag of a key does not
count for its name. Of two such entries the last one wins, and their order matters.

* `LongForm.commutes_addEntry`, `MessageForm.commutes_add`, `SchemaDocument.commutes_declare` — any
  two entries may be exchanged;
* `readsAlike_of_reordered` — fields at any depth;
* `toOption_messageDecl_reordered`, `toOption_schemaVersion_reordered` — messages and the version;
* `SchemaDocument.toOption_read_reordered`, `SchemaDocument.ofValue_reordered` — whole schemas.
-/

namespace WireSchema

variable {key key' : String} {v w : Yaml.Value}

/-! ### The attributes of a field -/

/-- What an attribute of a field changes. -/
inductive SetsAttribute :
    String → (FieldAttributes FieldDecl → FieldAttributes FieldDecl) → Prop
  | format (s : String) : SetsAttribute "format" fun a => { a with format := some s }
  | minLen (n : ℕ) : SetsAttribute "min_len" fun a => { a with minLen := some n }
  | maxLen (n : ℕ) : SetsAttribute "max_len" fun a => { a with maxLen := some n }
  | length (n : ℕ) : SetsAttribute "length" fun a => { a with length := some n }
  | countType (s : String) : SetsAttribute "prefix_type" fun a => { a with countType := some s }
  | recordName (s : String) : SetsAttribute "name" fun a => { a with recordName := some s }
  | fields (list : List FieldDecl) : SetsAttribute "fields" fun a => { a with fields := some list }

/-- Different attributes are different parts. -/
theorem SetsAttribute.comm {set set' : FieldAttributes FieldDecl → FieldAttributes FieldDecl}
    (h : SetsAttribute key set) (h' : SetsAttribute key' set') (hne : key ≠ key')
    (a : FieldAttributes FieldDecl) : set (set' a) = set' (set a) := by
  cases h <;> cases h' <;> first | rfl | exact absurd rfl hne

namespace LongForm

/-- The form with the entry of a mapping. -/
def addEntry (f : LongForm) (owner : String) (e : Yaml.Value × Yaml.Value) :
    Except SchemaError LongForm :=
  match attributeName owner e.1 with
  | .error e => .error e
  | .ok key =>
    if key.toList.contains ' ' then f.addKey owner key e.2
    else if key = "fields" then
      (fieldList owner e.2).map fun fields =>
        { f with attributes := { f.attributes with fields := some fields } }
    else f.addAttribute owner key e.2

theorem longForm_eq_foldlM (owner : String) (f : LongForm)
    (entries : List (Yaml.Value × Yaml.Value)) :
    longForm owner f entries = entries.foldlM (fun f e => f.addEntry owner e) f := by
  induction entries generalizing f with
  | nil => rfl
  | cons e entries ih =>
    have hnext : longForm owner f (e :: entries)
        = (f.addEntry owner e).bind fun f => longForm owner f entries := by
      rw [longForm, addEntry]
      cases attributeName owner e.1 with
      | error _ => rfl
      | ok key =>
        simp only
        split_ifs
        · cases f.addKey owner key e.2 <;> rfl
        · cases fieldList owner e.2 <;> rfl
        · cases f.addAttribute owner key e.2 <;> rfl
    rw [hnext, List.foldlM_cons]
    exact congrArg _ (funext ih)

/-- An entry is refused, or it declares name and type, for which there is one place, or it sets the
attribute that its key names. -/
inductive Adds (e : Yaml.Value × Yaml.Value) : (LongForm → Option LongForm) → Prop
  | nothing : Adds e fun _ => none
  | key (key : String) (params : Option TypeParams) :
      Adds e fun f => if f.keyed.isSome then none else some { f with keyed := some (key, params) }
  | sets {key : String} {set : FieldAttributes FieldDecl → FieldAttributes FieldDecl}
      (hkey : e.1.string? = some key) (hset : SetsAttribute key set) :
      Adds e fun f => some { f with attributes := set f.attributes }

/-- What an attribute that is read sets does not depend on the form that it is added to. -/
theorem Adds.of_map {γ : Type} {e : Yaml.Value × Yaml.Value} (hkey : e.1.string? = some key)
    {set : γ → FieldAttributes FieldDecl → FieldAttributes FieldDecl}
    (hset : ∀ c, SetsAttribute key (set c)) (x : Except SchemaError γ) :
    Adds e fun f => (x.map fun c => { f with attributes := set c f.attributes }).toOption := by
  cases x with
  | error _ => exact .nothing
  | ok c => exact .sets hkey (hset c)

theorem adds_addAttribute {e : Yaml.Value × Yaml.Value} (hkey : e.1.string? = some key)
    (owner : String) : Adds e fun f => (f.addAttribute owner key e.2).toOption := by
  unfold addAttribute
  split_ifs
  all_goals subst_vars
  · exact .of_map hkey .format _
  · exact .of_map hkey .minLen _
  · exact .of_map hkey .maxLen _
  · exact .of_map hkey .length _
  · exact .of_map hkey .countType _
  · exact .of_map hkey .recordName _
  · exact .nothing

theorem toOption_addKey (f : LongForm) (owner key : String) (v : Yaml.Value) :
    (f.addKey owner key v).toOption = if f.keyed.isSome then none
      else (typeParams key v).toOption.map
        fun params => { f with keyed := some (key, params) } := by
  unfold addKey
  split
  · rfl
  · cases typeParams key v <;> rfl

/-- All that an entry can do to a form. -/
theorem adds_addEntry (owner : String) (e : Yaml.Value × Yaml.Value) :
    Adds e fun f => (f.addEntry owner e).toOption := by
  unfold addEntry attributeName
  cases hkey : e.1.string? with
  | none => exact .nothing
  | some key =>
    simp only
    split_ifs with hblank hfields
    · simp only [toOption_addKey]
      cases typeParams key e.2 with
      | error _ =>
        simp only [Except.toOption, Option.map_none, ite_self]
        exact .nothing
      | ok params => exact .key key params
    · subst hfields
      exact .of_map hkey .fields _
    · exact adds_addAttribute hkey owner

theorem Adds.commutes {e e' : Yaml.Value × Yaml.Value} {add add' : LongForm → Option LongForm}
    (h : Adds e add) (h' : Adds e' add') (hdiffer : e.1.DifferInName e'.1) (f : LongForm) :
    (add f).bind add' = (add' f).bind add := by
  obtain ⟨keyed, attributes⟩ := f
  cases h with
  | nothing => cases add' ⟨keyed, attributes⟩ <;> rfl
  | key key params => cases h' <;> cases keyed <;> rfl
  | @sets key set hkey hset =>
    cases h' with
    | nothing => rfl
    | key key' params' => cases keyed <;> rfl
    | @sets key' set' hkey' hset' =>
      have hne : key' ≠ key := by
        rintro rfl
        exact hdiffer _ hkey hkey'
      show some (LongForm.mk _ _) = some (LongForm.mk _ _)
      rw [hset'.comm hset hne]

theorem commutes_addEntry (owner : String) {e e' : Yaml.Value × Yaml.Value}
    (hdiffer : e.1.DifferInName e'.1) :
    Commutes (fun f e => (addEntry f owner e).toOption) e e' :=
  fun f => (adds_addEntry owner e).commutes (adds_addEntry owner e') hdiffer f

end LongForm

/-! ### Values that are read alike -/

/-- Two values give the same wherever a schema may hold them, errors apart. -/
structure ReadsAlike (v w : Yaml.Value) : Prop where
  string : v.string? = w.string?
  natural : v.natural? = w.natural?
  params : ∀ key, (typeParams key v).toOption = (typeParams key w).toOption
  fields : ∀ owner, (fieldList owner v).toOption = (fieldList owner w).toOption
  field : ∀ owner, (fieldDecl owner v).toOption = (fieldDecl owner w).toOption

/-- The keys of two entries are the same name, if any, and their values are read alike. -/
def EntryReadsAlike (e e' : Yaml.Value × Yaml.Value) : Prop :=
  e.1.string? = e'.1.string? ∧ ReadsAlike e.2 e'.2

theorem ReadsAlike.refl (v : Yaml.Value) : ReadsAlike v v :=
  ⟨rfl, rfl, fun _ => rfl, fun _ => rfl, fun _ => rfl⟩

theorem attributeName_congr {k l : Yaml.Value} (h : k.string? = l.string?) (owner : String) :
    attributeName owner k = attributeName owner l := by
  rw [attributeName, attributeName, h]

theorem stringAttribute_congr (h : v.string? = w.string?) (owner key : String) :
    stringAttribute owner key v = stringAttribute owner key w := by
  rw [stringAttribute, stringAttribute, h]

theorem countAttribute_congr (h : v.natural? = w.natural?) (owner key : String) :
    countAttribute owner key v = countAttribute owner key w := by
  rw [countAttribute, countAttribute, h]

theorem LongForm.addEntry_congr (owner : String) (f : LongForm) {e e' : Yaml.Value × Yaml.Value}
    (h : EntryReadsAlike e e') :
    (f.addEntry owner e).toOption = (f.addEntry owner e').toOption := by
  obtain ⟨hkey, hvalue⟩ := h
  rw [addEntry, addEntry, attributeName_congr hkey]
  cases attributeName owner e'.1 with
  | error _ => rfl
  | ok key =>
    simp only
    split_ifs
    · rw [toOption_addKey, toOption_addKey, hvalue.params]
    · rw [toOption_map, toOption_map, hvalue.fields]
    · simp only [addAttribute, stringAttribute_congr hvalue.string,
        countAttribute_congr hvalue.natural]

/-- A tag does not matter for a string or a number, and stands nowhere else. -/
theorem ReadsAlike.tagged (tag : String) (hstring : v.string? = w.string?)
    (hnatural : v.natural? = w.natural?) : ReadsAlike (.tagged tag v) (.tagged tag w) where
  string := hstring
  natural := hnatural
  params := fun _ => rfl
  fields := fun _ => rfl
  field := fun _ => rfl

theorem paramNames_congr {items items' : List Yaml.Value}
    (h : items.map Yaml.Value.string? = items'.map Yaml.Value.string?) (field : String) :
    paramNames field items = paramNames field items' := by
  have hnames : ∀ list : List Yaml.Value, paramNames field list
      = (list.map Yaml.Value.string?).mapM fun s =>
          s.elim (.error (.invalidAttribute field "_type_params" .expectedParamStrings)) .ok := by
    intro list
    rw [List.mapM_map, paramNames]
    congr 1
    funext v
    show _ = v.string?.elim _ _
    cases v.string? <;> rfl
  rw [hnames, hnames, h]

theorem toOption_fieldItems_cons (owner : String) (v : Yaml.Value) (items : List Yaml.Value) :
    (fieldItems owner (v :: items)).toOption
      = (fieldDecl owner v).toOption.bind fun d =>
          (fieldItems owner items).toOption.map fun ds => d :: ds := by
  rw [fieldItems]
  cases fieldDecl owner v with
  | error _ => rfl
  | ok d => cases fieldItems owner items <;> rfl

theorem toOption_fieldDecl_mapping (owner : String) (entries : List (Yaml.Value × Yaml.Value)) :
    (fieldDecl owner (.mapping entries)).toOption
      = (entries.foldlM (fun f e => (LongForm.addEntry f owner e).toOption) {}).bind
          fun f => (f.finish owner).toOption := by
  rw [fieldDecl, LongForm.longForm_eq_foldlM,
    ← toOption_foldlM_steps fun f e => LongForm.addEntry f owner e]
  cases entries.foldlM (fun f e => LongForm.addEntry f owner e) {} <;> rfl

theorem ReadsAlike.sequence {items items' : List Yaml.Value}
    (h : List.Forall₂ ReadsAlike items items') :
    ReadsAlike (.sequence items) (.sequence items') where
  string := rfl
  natural := rfl
  params := by
    intro key
    have hstrings : items.map Yaml.Value.string? = items'.map Yaml.Value.string? := by
      induction h with
      | nil => rfl
      | cons hv _ ih => rw [List.map_cons, List.map_cons, hv.string, ih]
    rw [typeParams, typeParams, paramNames_congr hstrings]
  fields := by
    intro owner
    show (fieldItems owner items).toOption = (fieldItems owner items').toOption
    induction h with
    | nil => rfl
    | cons hv _ ih => rw [toOption_fieldItems_cons, toOption_fieldItems_cons, hv.field, ih]
  field := fun _ => rfl

theorem ReadsAlike.mapping {entries between entries' : List (Yaml.Value × Yaml.Value)}
    (h : List.Forall₂ EntryReadsAlike entries between) (hperm : between.Perm entries')
    (hdiffer : entries.Pairwise fun a b => a.1.DifferInName b.1) :
    ReadsAlike (.mapping entries) (.mapping entries') where
  string := rfl
  natural := rfl
  params := fun _ => rfl
  fields := fun _ => rfl
  field := by
    intro owner
    rw [toOption_fieldDecl_mapping, toOption_fieldDecl_mapping]
    have hfold := foldlM_reordered (f := fun f e => (LongForm.addEntry f owner e).toOption)
      (fun f _ _ => LongForm.addEntry_congr owner f) h hperm
      (hdiffer.imp (LongForm.commutes_addEntry owner)) {}
    rw [hfold]

mutual

-- The recursion is over the reordering and not over the value: at a mapping its entries are read
-- alike before they are exchanged, which needs that the names of their keys differ.

/-- A value is read alike in another order, at any depth. -/
theorem readsAlike_of_reordered : ∀ {v w : Yaml.Value}, v.Reordered w →
    v.KeysPairwise Yaml.Value.DifferInName → ReadsAlike v w
  | _, _, .refl v, _ => .refl v
  | _, _, .sequence h, hdiffer => .sequence (itemsReadAlike h hdiffer)
  | _, _, .mapping h hperm, hdiffer => .mapping (entriesReadAlike h hdiffer.2) hperm hdiffer.1
  | _, _, .tagged tag h, _ => .tagged tag h.string? h.natural?

theorem itemsReadAlike : ∀ {items items' : List Yaml.Value}, Yaml.ItemsReordered items items' →
    Yaml.itemsKeysPairwise Yaml.Value.DifferInName items → List.Forall₂ ReadsAlike items items'
  | _, _, .nil, _ => .nil
  | _, _, .cons h hrest, hdiffer =>
    .cons (readsAlike_of_reordered h hdiffer.1) (itemsReadAlike hrest hdiffer.2)

theorem entriesReadAlike : ∀ {entries entries' : List (Yaml.Value × Yaml.Value)},
    Yaml.EntriesReordered entries entries' →
      Yaml.entriesKeysPairwise Yaml.Value.DifferInName entries →
        List.Forall₂ EntryReadsAlike entries entries'
  | _, _, .nil, _ => .nil
  | _, _, .cons hkey hvalue hrest, hdiffer =>
    .cons ⟨hkey.string?, readsAlike_of_reordered hvalue hdiffer.2.1⟩
      (entriesReadAlike hrest hdiffer.2.2)

end

/-! ### Messages -/

/-- What an attribute of a message changes. -/
inductive SetsPart : String → (MessageForm → MessageForm) → Prop
  | id (n : ℕ) : SetsPart "id" fun f => { f with id := some n }
  | command (s : String) : SetsPart "name" fun f => { f with command := some s }
  | comment (s : String) : SetsPart "comment" fun f =>
      { f with comment := String.ofList (Text.trimEnd s.toList) }
  | aliasOf (s : String) : SetsPart "alias" fun f => { f with aliasOf := some s }
  | fields (list : List FieldDecl) : SetsPart "fields" fun f => { f with fields := some list }

/-- Different attributes of a message are different parts. -/
theorem SetsPart.comm {set set' : MessageForm → MessageForm} (h : SetsPart key set)
    (h' : SetsPart key' set') (hne : key ≠ key') (f : MessageForm) :
    set (set' f) = set' (set f) := by
  cases h <;> cases h' <;> first | rfl | exact absurd rfl hne

namespace MessageForm

/-- An entry is refused, or it sets the part that its key names. -/
inductive Adds (e : Yaml.Value × Yaml.Value) : (MessageForm → Option MessageForm) → Prop
  | nothing : Adds e fun _ => none
  | sets {key : String} {set : MessageForm → MessageForm} (hkey : e.1.string? = some key)
      (hset : SetsPart key set) : Adds e fun f => some (set f)

theorem Adds.of_map {γ : Type} {e : Yaml.Value × Yaml.Value} (hkey : e.1.string? = some key)
    {set : γ → MessageForm → MessageForm} (hset : ∀ c, SetsPart key (set c))
    (x : Except SchemaError γ) : Adds e fun f => (x.map fun c => set c f).toOption := by
  cases x with
  | error _ => exact .nothing
  | ok c => exact .sets hkey (hset c)

/-- All that an entry can do to what a message has declared. -/
theorem adds_add (name : String) (e : Yaml.Value × Yaml.Value) :
    Adds e fun f => (f.add name e).toOption := by
  unfold add attributeName
  cases hkey : e.1.string? with
  | none => exact .nothing
  | some key =>
    simp only [bind, Except.bind]
    split_ifs
    all_goals subst_vars
    · exact .of_map hkey .id _
    · exact .of_map hkey .command _
    · exact .of_map hkey .comment _
    · exact .of_map hkey .aliasOf _
    · exact .of_map hkey .fields _
    · exact .nothing

theorem Adds.commutes {e e' : Yaml.Value × Yaml.Value}
    {add add' : MessageForm → Option MessageForm} (h : Adds e add) (h' : Adds e' add')
    (hdiffer : e.1.DifferInName e'.1) (f : MessageForm) :
    (add f).bind add' = (add' f).bind add := by
  cases h with
  | nothing => cases add' f <;> rfl
  | @sets key set hkey hset =>
    cases h' with
    | nothing => rfl
    | @sets key' set' hkey' hset' =>
      have hne : key' ≠ key := by
        rintro rfl
        exact hdiffer _ hkey hkey'
      exact congrArg some (hset'.comm hset hne f)

theorem commutes_add (name : String) {e e' : Yaml.Value × Yaml.Value}
    (hdiffer : e.1.DifferInName e'.1) :
    Commutes (fun f e => (add f name e).toOption) e e' :=
  fun f => (adds_add name e).commutes (adds_add name e') hdiffer f

theorem add_congr (name : String) (f : MessageForm) {e e' : Yaml.Value × Yaml.Value}
    (h : EntryReadsAlike e e') : (f.add name e).toOption = (f.add name e').toOption := by
  obtain ⟨hkey, hvalue⟩ := h
  rw [add, add, attributeName_congr hkey]
  cases attributeName name e'.1 with
  | error _ => rfl
  | ok key =>
    simp only [bind, Except.bind, stringAttribute_congr hvalue.string,
      countAttribute_congr hvalue.natural]
    split_ifs
    all_goals first | rfl | rw [toOption_map, toOption_map, hvalue.fields]

end MessageForm

theorem toOption_messageDecl (name : String) (v : Yaml.Value) :
    (messageDecl name v).toOption = v.entries?.bind fun entries =>
      (entries.foldlM (fun f e => (MessageForm.add f name e).toOption) {}).bind
        fun f => (f.finish name).toOption := by
  unfold messageDecl
  cases v.entries? with
  | none => rfl
  | some entries =>
    rw [Option.bind_some, ← toOption_foldlM_steps fun f e => MessageForm.add f name e]
    exact toOption_bind _ _

/-- A message may be declared with its attributes in any order. -/
theorem toOption_messageDecl_reordered (h : v.Reordered w)
    (hdiffer : v.KeysPairwise Yaml.Value.DifferInName) (name : String) :
    (messageDecl name v).toOption = (messageDecl name w).toOption := by
  rw [toOption_messageDecl, toOption_messageDecl]
  apply h.bind_entries?
  intro entries between entries' hv hentries hperm
  obtain ⟨hkeys, hvalues⟩ := hdiffer.of_entries? hv
  have hfold := foldlM_reordered (f := fun f e => (MessageForm.add f name e).toOption)
    (fun f _ _ => MessageForm.add_congr name f) (entriesReadAlike hentries hvalues) hperm
    (hkeys.imp (MessageForm.commutes_add name)) {}
  rw [hfold]

/-! ### The version -/

/-- Whether an entry has the key of the version. -/
def isVersionEntry (e : Yaml.Value × Yaml.Value) : Bool :=
  match e.1 with
  | .string s => s == "version"
  | _ => false

/-- The version that a value is. -/
def versionText? : Yaml.Value → Option String
  | .string s => some s
  | .number n => some n.text
  | _ => none

theorem toOption_schemaVersion (v : Yaml.Value) :
    (schemaVersion v).toOption = v.entries?.bind fun entries =>
      (entries.find? isVersionEntry).bind fun e => versionText? e.2 := by
  unfold schemaVersion
  cases v.entries? with
  | none => rfl
  | some entries =>
    rw [Option.bind_some]
    simp only
    -- the cases are those of `schemaVersion`, whose test for the key is `isVersionEntry`
    split
    all_goals
      rename_i hfind
      rw [show entries.find? isVersionEntry = _ from hfind]
    case h_3 e hstring hnumber =>
      obtain ⟨k, v⟩ := e
      cases v with
      | string s => exact (hstring k s rfl).elim
      | number n => exact (hnumber k n rfl).elim
      | _ => rfl
    all_goals rfl

theorem eq_of_isVersionEntry {e : Yaml.Value × Yaml.Value} (h : isVersionEntry e = true) :
    e.1 = .string "version" := by
  unfold isVersionEntry at h
  split at h
  · rename_i hkey
    rw [hkey, eq_of_beq h]
  · cases h

theorem isVersionEntry_congr {e e' : Yaml.Value × Yaml.Value} (h : e.1.Reordered e'.1) :
    isVersionEntry e = isVersionEntry e' := by
  unfold isVersionEntry
  generalize e.1 = k at h ⊢
  generalize e'.1 = l at h ⊢
  cases h <;> rfl

theorem versionText?_congr (h : v.Reordered w) : versionText? v = versionText? w := by
  cases h <;> rfl

/-- The version may stand anywhere among its neighbours. -/
theorem toOption_schemaVersion_reordered (h : v.Reordered w) (hunique : v.UniqueKeys) :
    (schemaVersion v).toOption = (schemaVersion w).toOption := by
  rw [toOption_schemaVersion, toOption_schemaVersion]
  apply h.bind_entries?
  intro entries between entries' hv hentries hperm
  obtain ⟨hkeys, -⟩ := hunique.of_entries? hv
  have hone : entries.Pairwise fun a b =>
      ¬(isVersionEntry a = true ∧ isVersionEntry b = true) := by
    refine hkeys.imp fun hnot hboth => ?_
    rw [eq_of_isVersionEntry hboth.1, eq_of_isVersionEntry hboth.2] at hnot
    exact absurd hnot (by decide)
  -- the entries are exchanged first, while their keys are still known to be distinct
  obtain ⟨middle, hmiddle, halike⟩ := exists_perm_forall₂ hentries.forall₂ hperm
  rw [find?_perm hmiddle hone]
  refine find?_bind_congr (fun e e' he => ?_) halike
  exact ⟨isVersionEntry_congr he.1, versionText?_congr he.2⟩

/-! ### Schemas -/

namespace SchemaDocument

/-- No name is given twice where one of them would not count: the key of the version, and any key in
a message. A name counts without the tag of its key. -/
structure NamesOnce (entries : List (Yaml.Value × Yaml.Value)) : Prop where
  version : entries.Pairwise fun a b =>
    ¬(a.1.string? = some protocolKey ∧ b.1.string? = some protocolKey)
  messages : ∀ e ∈ entries, e.1.string? ≠ some protocolKey →
    e.2.KeysPairwise Yaml.Value.DifferInName

/-- Two values declare the same: neither is a schema, or the versions are the same and the messages
are the same up to their order. -/
def DeclareAlike (v w : Yaml.Value) : Prop :=
  ((∃ d, ofValue v = .ok d) ↔ ∃ d, ofValue w = .ok d) ∧
    ∀ d d', ofValue v = .ok d → ofValue w = .ok d' →
      d.version = d'.version ∧ d.messages.Perm d'.messages

/-- What the entries so far have declared, without an order of the messages. -/
abbrev Declared : Type := Option String × Multiset MessageDecl

/-- What an entry adds, if it is accepted. -/
def declare (t : Declared) (e : Yaml.Value × Yaml.Value) : Option Declared :=
  e.1.string?.bind fun name =>
    if name = protocolKey then (schemaVersion e.2).toOption.map fun version => (some version, t.2)
    else (messageDecl name e.2).toOption.map fun m => (t.1, m ::ₘ t.2)

/-- The declarations so far, without the order. -/
def Partial.declared (p : Partial) : Declared :=
  (p.version, ↑p.messages)

theorem toOption_addEntry (p : Partial) (e : Yaml.Value × Yaml.Value) :
    (addEntry p e).toOption.map Partial.declared = declare p.declared e := by
  unfold addEntry declare
  cases e.1.string? with
  | none => rfl
  | some name =>
    simp only [Option.bind_some]
    split_ifs
    · rw [toOption_map, Option.map_map]
      rfl
    · rw [toOption_map, Option.map_map]
      rfl

/-- What a document declares, without the order of its messages. -/
def declared (d : SchemaDocument) : String × Multiset MessageDecl :=
  (d.version, ↑d.messages)

theorem toOption_ofValue (v : Yaml.Value) :
    (ofValue v).toOption.map declared = v.entries?.bind fun entries =>
      (entries.foldlM declare (none, 0)).bind fun t => t.1.map fun version => (version, t.2) := by
  unfold ofValue
  cases v.entries? with
  | none => rfl
  | some entries =>
    have hfold : (entries.foldlM addEntry {}).toOption.map Partial.declared
        = entries.foldlM declare (none, 0) := toOption_foldlM toOption_addEntry entries {}
    rw [Option.bind_some, ← hfold]
    simp only [toOption_bind]
    cases (entries.foldlM addEntry {}).toOption with
    | none => rfl
    | some p =>
      obtain ⟨version, messages⟩ := p
      cases version with
      | none => rfl
      | some version =>
        show some (version, (↑messages.reverse : Multiset MessageDecl)) = some (version, ↑messages)
        rw [Multiset.coe_reverse]

/-- An entry is refused, or it gives the version, or it adds a message. -/
inductive Declares (e : Yaml.Value × Yaml.Value) : (Declared → Option Declared) → Prop
  | nothing : Declares e fun _ => none
  | version (hkey : e.1.string? = some protocolKey) (s : String) :
      Declares e fun t => some (some s, t.2)
  | message (m : MessageDecl) : Declares e fun t => some (t.1, m ::ₘ t.2)

theorem declares_declare (e : Yaml.Value × Yaml.Value) : Declares e fun t => declare t e := by
  unfold declare
  cases hkey : e.1.string? with
  | none => exact .nothing
  | some name =>
    simp only [Option.bind_some]
    split_ifs with hprotocol
    · rw [hprotocol] at hkey
      cases (schemaVersion e.2).toOption with
      | none => exact .nothing
      | some s => exact .version hkey s
    · cases (messageDecl name e.2).toOption with
      | none => exact .nothing
      | some m => exact .message m

theorem Declares.commutes {e e' : Yaml.Value × Yaml.Value} {add add' : Declared → Option Declared}
    (h : Declares e add) (h' : Declares e' add')
    (hone : ¬(e.1.string? = some protocolKey ∧ e'.1.string? = some protocolKey)) (t : Declared) :
    (add t).bind add' = (add' t).bind add := by
  cases h with
  | nothing => cases add' t <;> rfl
  | version hkey s =>
    cases h' with
    | nothing => rfl
    | version hkey' s' => exact absurd ⟨hkey, hkey'⟩ hone
    | message m' => rfl
  | message m =>
    cases h' with
    | nothing => rfl
    | version hkey' s' => rfl
    | message m' => exact congrArg (fun messages => some (t.1, messages)) (Multiset.cons_swap ..)

/-- Two entries may be exchanged unless both give the version. -/
theorem commutes_declare {e e' : Yaml.Value × Yaml.Value}
    (hone : ¬(e.1.string? = some protocolKey ∧ e'.1.string? = some protocolKey)) :
    Commutes declare e e' :=
  fun t => (declares_declare e).commutes (declares_declare e') hone t

/-- An entry declares the same after a reordering. -/
theorem declare_congr {e e' : Yaml.Value × Yaml.Value} (hkey : e.1.Reordered e'.1)
    (hvalue : e.2.Reordered e'.2) (hunique : e.2.UniqueKeys)
    (honce : e.1.string? ≠ some protocolKey → e.2.KeysPairwise Yaml.Value.DifferInName)
    (t : Declared) : declare t e = declare t e' := by
  unfold declare
  rw [← hkey.string?]
  cases hname : e.1.string? with
  | none => rfl
  | some name =>
    rw [hname] at honce
    simp only [Option.bind_some]
    split_ifs with hprotocol
    · rw [toOption_schemaVersion_reordered hvalue hunique]
    · rw [toOption_messageDecl_reordered hvalue (honce (by simpa using hprotocol))]

/-- Reordered values declare the same, without the order of the messages. -/
theorem toOption_ofValue_reordered (h : v.Reordered w) (hunique : v.UniqueKeys)
    (honce : ∀ entries, v.entries? = some entries → NamesOnce entries) :
    (ofValue v).toOption.map declared = (ofValue w).toOption.map declared := by
  rw [toOption_ofValue, toOption_ofValue]
  apply h.bind_entries?
  intro entries between entries' hv hentries hperm
  have hnames := honce entries hv
  have hvalues : ∀ e ∈ entries, e.2.UniqueKeys ∧
      (e.1.string? ≠ some protocolKey → e.2.KeysPairwise Yaml.Value.DifferInName) := by
    intro e he
    have hkeys := Yaml.entriesKeysPairwise_iff.mp (hunique.of_entries? hv).2 e he
    exact ⟨hkeys.2, hnames.messages e he⟩
  have halike : List.Forall₂ (fun e e' => ∀ t, declare t e = declare t e') entries between := by
    refine ((List.forall₂_and_left _ _).mpr ⟨hvalues, hentries.forall₂⟩).imp fun e e' he t => ?_
    obtain ⟨⟨hkeys, hdiffer⟩, hkey, hvalue⟩ := he
    exact declare_congr hkey hvalue hkeys hdiffer t
  have hfold := foldlM_reordered (fun t _ _ h => h t) halike hperm
    (hnames.version.imp commutes_declare) (none, 0)
  rw [hfold]

/-- Texts that are read as reordered values declare the same: their keys are distinct. -/
theorem toOption_read_reordered {text text' : String} (hv : Yaml.Value.read text = .ok v)
    (hw : Yaml.Value.read text' = .ok w) (h : v.Reordered w)
    (honce : ∀ entries, v.entries? = some entries → NamesOnce entries) :
    (read text).toOption.map declared = (read text').toOption.map declared := by
  rw [read, read, hv, hw]
  exact toOption_ofValue_reordered h (Yaml.Value.uniqueKeys_of_read hv) honce

/-- No name is given twice where distinct keys have no tags. -/
theorem namesOnce_of_untagged (hunique : v.UniqueKeys)
    (huntagged : v.KeysPairwise fun a b => a.untagged = a ∧ b.untagged = b)
    {entries : List (Yaml.Value × Yaml.Value)} (hentries : v.entries? = some entries) :
    NamesOnce entries := by
  have hdiffer : v.KeysPairwise Yaml.Value.DifferInName :=
    huntagged.mp (fun _ _ h => Yaml.Value.differInName_of_untagged h.1 h.2) hunique
  obtain ⟨hkeys, hvalues⟩ := hdiffer.of_entries? hentries
  refine ⟨hkeys.imp fun h hboth => h _ hboth.1 hboth.2, fun e he _ => ?_⟩
  exact (Yaml.entriesKeysPairwise_iff.mp hvalues e he).2

/-- The entries of every mapping of a schema may stand in any order, which changes only the order of
the messages, if no name is given twice under different tags. -/
theorem ofValue_reordered (v w : Yaml.Value) (hunique : v.UniqueKeys)
    (honce : ∀ entries, v.entries? = some entries → NamesOnce entries) (h : v.Reordered w) :
    DeclareAlike v w := by
  obtain ⟨hsuccess, hagree⟩ := toOption_map_eq_iff.mp (toOption_ofValue_reordered h hunique honce)
  refine ⟨hsuccess, fun d d' hd hd' => ?_⟩
  obtain ⟨hversion, hmessages⟩ := Prod.ext_iff.mp (hagree d d' hd hd')
  exact ⟨hversion, Multiset.coe_eq_coe.mp hmessages⟩

/-- A schema with a list of records. -/
def strokeDocument : Yaml.Value :=
  .mapping [
    (.string "_protocol", .mapping [(.string "version", .string "1")]),
    (.string "Leave", .mapping [(.string "id", .number (.nonneg 33)),
      (.string "comment", .string "bye")]),
    (.string "Stroke", .mapping [(.string "id", .number (.nonneg 34)),
      (.string "fields", .sequence [.string "layer u16",
        .mapping [(.string "points struct", .null), (.string "max_len", .number (.nonneg 4)),
          (.string "fields", .sequence [.string "x i32",
            .mapping [(.string "y i32", .null), (.string "format", .string "div4")]])]])])]

/-- The same schema, in another order at every depth. -/
def strokeDocumentReordered : Yaml.Value :=
  .mapping [
    (.string "Stroke", .mapping [
      (.string "fields", .sequence [.string "layer u16",
        .mapping [(.string "fields", .sequence [.string "x i32",
            .mapping [(.string "format", .string "div4"), (.string "y i32", .null)]]),
          (.string "points struct", .null), (.string "max_len", .number (.nonneg 4))]]),
      (.string "id", .number (.nonneg 34))]),
    (.string "_protocol", .mapping [(.string "version", .string "1")]),
    (.string "Leave", .mapping [(.string "comment", .string "bye"),
      (.string "id", .number (.nonneg 33))])]

theorem uniqueKeys_strokeDocument : strokeDocument.UniqueKeys := by
  simp [strokeDocument, Yaml.Value.UniqueKeys, Yaml.Value.KeysPairwise, Yaml.itemsKeysPairwise,
    Yaml.entriesKeysPairwise, Yaml.Value.same]

theorem untaggedKeys_strokeDocument :
    strokeDocument.KeysPairwise fun a b => a.untagged = a ∧ b.untagged = b := by
  simp [strokeDocument, Yaml.Value.KeysPairwise, Yaml.itemsKeysPairwise,
    Yaml.entriesKeysPairwise, Yaml.Value.untagged]

theorem reordered_strokeDocument : strokeDocument.Reordered strokeDocumentReordered := by
  have hsubfields : Yaml.ItemsReordered
      [.string "x i32", .mapping [(.string "y i32", .null), (.string "format", .string "div4")]]
      [.string "x i32", .mapping [(.string "format", .string "div4"), (.string "y i32", .null)]] :=
    .cons (.refl _) (.cons (.mapping (.refl _) (.swap ..)) .nil)
  have hfields := Yaml.ItemsReordered.cons (.refl (.string "layer u16")) <| .cons
    (.mapping
      (.cons (.refl (.string "points struct")) (.refl .null) <|
        .cons (.refl (.string "max_len")) (.refl (.number (.nonneg 4))) <|
        .cons (.refl (.string "fields")) (.sequence hsubfields) .nil)
      (@List.perm_append_comm _ [_, _] [_]))
    .nil
  have hstroke := Yaml.Value.Reordered.mapping
    (.cons (.refl (.string "id")) (.refl (.number (.nonneg 34))) <|
      .cons (.refl (.string "fields")) (.sequence hfields) .nil)
    (.swap ..)
  have hleave : Yaml.Value.Reordered
      (.mapping [(.string "id", .number (.nonneg 33)), (.string "comment", .string "bye")])
      (.mapping [(.string "comment", .string "bye"), (.string "id", .number (.nonneg 33))]) :=
    .mapping (.refl _) (.swap ..)
  exact .mapping
    (.cons (.refl _) (.refl _) (.cons (.refl _) hleave (.cons (.refl _) hstroke .nil)))
    (@List.perm_append_comm _ [_, _] [_])

theorem ofValue_reordered_stroke :
    (∃ d, ofValue strokeDocument = .ok d) ∧ DeclareAlike strokeDocument strokeDocumentReordered :=
  ⟨⟨_, rfl⟩, ofValue_reordered strokeDocument strokeDocumentReordered uniqueKeys_strokeDocument
    (fun _ => namesOnce_of_untagged uniqueKeys_strokeDocument untaggedKeys_strokeDocument)
    reordered_strokeDocument⟩

/-- A schema with one message, which has two attributes. -/
def leaveDocument (first second : Yaml.Value × Yaml.Value) : Yaml.Value :=
  .mapping [(.string "_protocol", .mapping [(.string "version", .string "1")]),
    (.string "Leave", .mapping [first, second])]

/-- The number of a message. -/
def plainId : Yaml.Value × Yaml.Value :=
  (.string "id", .number (.nonneg 33))

/-- Another number, under a key that is distinct and is the same name. -/
def taggedId : Yaml.Value × Yaml.Value :=
  (.tagged "x" (.string "id"), .number (.nonneg 34))

theorem uniqueKeys_leaveDocument : (leaveDocument plainId taggedId).UniqueKeys := by
  simp [leaveDocument, plainId, taggedId, Yaml.Value.UniqueKeys, Yaml.Value.KeysPairwise,
    Yaml.entriesKeysPairwise, Yaml.Value.same]

theorem reordered_leaveDocument (first second : Yaml.Value × Yaml.Value) :
    (leaveDocument first second).Reordered (leaveDocument second first) := by
  have hleave : Yaml.Value.Reordered (.mapping [first, second]) (.mapping [second, first]) :=
    .mapping (.refl _) (.swap ..)
  exact .mapping (.cons (.refl _) (.refl _) (.cons (.refl _) hleave .nil)) (.refl _)

/-- Of a name that is given twice under different tags, the last one counts. -/
theorem not_declareAlike_of_tagged : ¬∀ v w : Yaml.Value, v.UniqueKeys → v.Reordered w →
    DeclareAlike v w := by
  intro h
  obtain ⟨-, hagree⟩ := h (leaveDocument plainId taggedId) (leaveDocument taggedId plainId)
    uniqueKeys_leaveDocument (reordered_leaveDocument _ _)
  have hlast : ofValue (leaveDocument plainId taggedId)
      = .ok ⟨"1", [⟨"Leave", 34, none, "", .fields []⟩]⟩ := rfl
  have hlast' : ofValue (leaveDocument taggedId plainId)
      = .ok ⟨"1", [⟨"Leave", 33, none, "", .fields []⟩]⟩ := rfl
  have hsame := List.singleton_perm_singleton.mp (hagree _ _ hlast hlast').2
  cases hsame

end SchemaDocument

end WireSchema
