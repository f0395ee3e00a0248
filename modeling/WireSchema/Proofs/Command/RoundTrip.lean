import Mathlib
import WireSchema.Proofs.Command.Line
import WireSchema.Proofs.Command.Value
import WireSchema.Proofs.Wire.Acceptance

/-!
# Decoded messages survive the text form

A message that was read from a frame has a text form, the written form of that is read back, and the
message of what is read is the one that was decoded, except for the bits of flags that have no name.
The names of the catalogue have to be such that they can stand in a line.

* `Catalogue.TextSafe` — the names can stand in a line;
* `arguments`, `writtenRecords` — what the text form of values holds;
* `Command.addFields_of_accepts`, `Command.addFields_eq` — the text form is made of them;
* `Command.value_of_accepts`, `Command.value_of_mem` — each value is read back from it;
* `Catalogue.ofCommand_toCommand_of_decode` — decoded messages are read back.
-/

namespace WireSchema

open WireSchema.Text

/-! ### Names -/

/-- The names of a catalogue can stand in a line: a command is a word that opens no block, the name
of a field has no equals sign, and the names of flags can stand in a comma list. -/
structure Catalogue.TextSafe (c : Catalogue) : Prop where
  commands : ∀ m ∈ c.messages, IsWord m.command.toList ∧ m.command ≠ "\x7b"
  fields : ∀ m ∈ c.messages, ∀ f ∈ m.layout.fields, '=' ∉ f.name.toList
  flags : ∀ m ∈ c.messages, ∀ f ∈ m.layout.fields, ∀ name ∈ f.flagNames, IsEntry name.toList

/-- A message without the bits of flags that have no name. -/
def Catalogue.clearUndeclared (c : Catalogue) (msg : Message) : Message :=
  match c.byId? msg.type with
  | none => msg
  | some m =>
    { msg with values := List.zipWith Field.clearUndeclared m.layout.fields msg.values }

/-! ### The text form of values -/

/-- The text of a value; records have none. -/
def Field.text (f : Field) (v : Value) : List Char :=
  (f.kind.render? v).getD []

/-- The numbers of records as they stand in a command. -/
def Field.scaledRecords (f : Field) (v : Value) : List (List Binary64) :=
  match f.kind, v with
  | .records _ columns _ _, .records records => records.map (scaledRecord columns)
  | _, _ => []

/-- The arguments of values in order, without empty ones. -/
def arguments (pairs : List (Field × Value)) : List (String × String) :=
  (pairs.map fun p => (p.1.name, String.ofList (p.1.text p.2))).filter fun arg => arg.2 ≠ ""

/-- The records of values in order. -/
def writtenRecords (pairs : List (Field × Value)) : List (List Binary64) :=
  pairs.flatMap fun p => p.1.scaledRecords p.2

variable {f : Field} {v : Value} {p : Field × Value} {pairs : List (Field × Value)}

theorem Field.text_eq {s : List Char} (h : f.kind.render? v = some s) : f.text v = s := by
  rw [text, h, Option.getD_some]

/-- The value of an array of records is a list of records that match the columns. -/
theorem Field.records_of_matches (h : f.isRecords = true) (hv : f.Matches v) :
    ∃ recordName columns itemLen maxItems records,
      f.kind = .records recordName columns itemLen maxItems ∧ v = .records records ∧
        ∀ record ∈ records, RecordMatches columns record := by
  unfold isRecords at h
  unfold Matches at hv
  cases hkind : f.kind with
  | records recordName columns itemLen maxItems =>
    rw [hkind] at hv
    cases v with
    | records records => exact ⟨recordName, columns, itemLen, maxItems, records, rfl, rfl, hv⟩
    | _ => exact hv.elim
  | _ =>
    rw [hkind] at h
    cases h

theorem Field.text_of_isRecords (h : f.isRecords = true) (hv : f.Matches v) : f.text v = [] := by
  obtain ⟨recordName, columns, itemLen, maxItems, records, hkind, rfl, -⟩ := records_of_matches h hv
  rw [text, hkind]
  rfl

theorem Field.scaledRecords_of_not_isRecords (h : f.isRecords = false) :
    f.scaledRecords v = [] := by
  unfold isRecords at h
  unfold scaledRecords
  cases hkind : f.kind with
  | records recordName columns itemLen maxItems =>
    rw [hkind] at h
    cases h
  | _ => rfl

theorem ofList_text_eq_empty_iff : String.ofList (f.text v) = "" ↔ f.text v = [] := by
  rw [← String.toList_eq_nil_iff, String.toList_ofList]

/-- A text that is not empty adds an argument in front. -/
theorem arguments_cons : arguments (p :: pairs)
    = if p.1.text p.2 = [] then arguments pairs
      else (p.1.name, String.ofList (p.1.text p.2)) :: arguments pairs := by
  unfold arguments
  rw [List.map_cons, List.filter_cons]
  by_cases hempty : p.1.text p.2 = []
  · rw [if_pos hempty, if_neg]
    rw [decide_eq_true_eq, not_not]
    exact ofList_text_eq_empty_iff.mpr hempty
  · rw [if_neg hempty, if_pos]
    rw [decide_eq_true_eq]
    exact fun h => hempty (ofList_text_eq_empty_iff.mp h)

theorem arguments_append (before after : List (Field × Value)) :
    arguments (before ++ after) = arguments before ++ arguments after := by
  rw [arguments, List.map_append, List.filter_append]
  rfl

/-- An argument has the name of a field and is not empty. -/
theorem of_mem_arguments {arg : String × String} (h : arg ∈ arguments pairs) :
    (∃ p ∈ pairs, arg.1 = p.1.name) ∧ arg.2 ≠ "" := by
  rw [arguments, List.mem_filter, decide_eq_true_eq] at h
  obtain ⟨p, hp, rfl⟩ := List.mem_map.mp h.1
  exact ⟨⟨p, hp, rfl⟩, h.2⟩

/-- The argument of a field is the text of its value, if that is not empty. -/
theorem lookup_arguments (hnames : (pairs.map fun p => p.1.name).Nodup) (hp : p ∈ pairs) :
    (arguments pairs).lookup p.1.name
      = if p.1.text p.2 = [] then none else some (String.ofList (p.1.text p.2)) := by
  induction pairs with
  | nil => exact absurd hp List.not_mem_nil
  | cons q pairs ih =>
    rw [List.map_cons, List.nodup_cons] at hnames
    rw [arguments_cons]
    rcases List.mem_cons.mp hp with rfl | hp
    · by_cases hempty : p.1.text p.2 = []
      · rw [if_pos hempty, if_pos hempty, List.lookup_eq_none_iff]
        intro arg harg
        obtain ⟨⟨q, hq, hname⟩, -⟩ := of_mem_arguments harg
        rw [bne_iff_ne, hname]
        intro heq
        exact hnames.1 (List.mem_map.mpr ⟨q, hq, heq.symm⟩)
      · rw [if_neg hempty, if_neg hempty, List.lookup_cons_self]
    · have hne : (p.1.name == q.1.name) = false := by
        rw [beq_eq_false_iff_ne]
        intro heq
        exact hnames.1 (List.mem_map.mpr ⟨p, hp, heq⟩)
      by_cases hempty : q.1.text q.2 = []
      · rw [if_pos hempty]
        exact ih hnames.2 hp
      · rw [if_neg hempty, List.lookup_cons, hne]
        exact ih hnames.2 hp

/-- No record of a field is empty. -/
theorem ne_nil_of_mem_scaledRecords (hf : f.WellFormed) (hv : f.Accepts v) {record : List Binary64}
    (h : record ∈ f.scaledRecords v) : record ≠ [] := by
  by_cases hrecords : f.isRecords = true
  · obtain ⟨recordName, columns, itemLen, maxItems, records, hkind, rfl, hmatch⟩ :=
      Field.records_of_matches hrecords (hv.matches_of_isRecords hrecords)
    have hshape := hf.records hkind
    unfold Field.scaledRecords at h
    rw [hkind] at h
    obtain ⟨numbers, hnumbers, rfl⟩ := List.mem_map.mp h
    have hpos := hshape.itemLen_pos
    rw [hshape.itemLen_eq] at hpos
    rw [← List.length_pos_iff, length_scaledRecord (hmatch numbers hnumbers), List.length_pos_iff]
    exact ne_nil_of_itemLength_pos hpos
  · rw [Bool.not_eq_true] at hrecords
    rw [Field.scaledRecords_of_not_isRecords hrecords] at h
    exact absurd h List.not_mem_nil

/-! ### Records come last -/

theorem Field.Placed.not_isRecords {prevMin prevMax : ℕ} (h : f.Placed false prevMin prevMax) :
    f.isRecords = false := by
  unfold isRecords
  cases hkind : f.kind with
  | records recordName columns itemLen maxItems =>
    exact absurd (h.records hkind).1 Bool.false_ne_true
  | _ => rfl

/-- A field that others follow is no array of records. -/
theorem not_isRecords_of_placedFrom {fields : List Field} {prevMin prevMax : ℕ}
    (h : PlacedFrom prevMin prevMax (f :: fields)) (hne : fields ≠ []) : f.isRecords = false := by
  obtain ⟨hplaced, -⟩ := h
  rw [List.isEmpty_eq_false_iff.mpr hne] at hplaced
  exact hplaced.not_isRecords

/-- The records of an array of records are all there are. -/
theorem writtenRecords_of_mem {fields : List Field} {values : List Value} {prevMin prevMax : ℕ}
    (hplaced : PlacedFrom prevMin prevMax fields) (hp : p ∈ fields.zip values)
    (hrecords : p.1.isRecords = true) :
    writtenRecords (fields.zip values) = p.1.scaledRecords p.2 := by
  induction fields generalizing values prevMin prevMax with
  | nil => exact absurd hp List.not_mem_nil
  | cons f fields ih =>
    cases values with
    | nil => exact absurd hp List.not_mem_nil
    | cons v values =>
      rw [List.zip_cons_cons] at hp ⊢
      rw [writtenRecords, List.flatMap_cons]
      by_cases hlast : fields = []
      · subst hlast
        rw [List.zip_nil_left, List.mem_singleton] at hp
        rw [hp]
        exact List.append_nil _
      · have hfirst := not_isRecords_of_placedFrom hplaced hlast
        rcases List.mem_cons.mp hp with rfl | hp
        · exact absurd (hfirst.symm.trans hrecords) Bool.false_ne_true
        · rw [Field.scaledRecords_of_not_isRecords hfirst, List.nil_append]
          exact ih hplaced.2 hp

/-! ### Writing -/

namespace Command

/-- A text that is not empty becomes an argument. -/
theorem set_text (c : Command) :
    c.set f.name (String.ofList (f.text v)) = { c with args := c.args ++ arguments [(f, v)] } := by
  have hnil : arguments [] = [] := rfl
  rw [set, arguments_cons, hnil]
  by_cases hempty : f.text v = []
  · rw [if_pos hempty, if_pos (ofList_text_eq_empty_iff.mpr hempty), List.append_nil]
  · rw [if_neg hempty, if_neg (fun h => hempty (ofList_text_eq_empty_iff.mp h))]

theorem addField_of_not_isRecords (c : Command) {s : List Char} (h : f.kind.render? v = some s) :
    c.addField f v = .ok { c with args := c.args ++ arguments [(f, v)] } := by
  have hset : c.addField f v = .ok (c.set f.name (String.ofList s)) := by
    unfold addField
    cases hkind : f.kind with
    | records recordName columns itemLen maxItems =>
      rw [hkind] at h
      cases h
    | _ =>
      rw [hkind] at h
      simp only [h]
  rw [hset, ← Field.text_eq h, set_text]

theorem addField_of_isRecords (c : Command) (hrecords : f.isRecords = true) (hv : f.Matches v) :
    c.addField f v = .ok { c with records := f.scaledRecords v } := by
  obtain ⟨recordName, columns, itemLen, maxItems, records, hkind, rfl, -⟩ :=
    Field.records_of_matches hrecords hv
  unfold addField Field.scaledRecords
  rw [hkind]
  rfl

/-- Values in order become the arguments and the records of a command. -/
theorem addFields_of_accepts {fields : List Field} {values : List Value} {prevMin prevMax : ℕ}
    (hfields : ∀ f ∈ fields, f.WellFormed) (hplaced : PlacedFrom prevMin prevMax fields)
    (h : List.Forall₂ Field.Accepts fields values)
    {before : Command} (hbefore : before.records = []) :
    before.addFields (fields.zip values)
      = .ok ⟨before.userId, before.name, before.args ++ arguments (fields.zip values),
        writtenRecords (fields.zip values)⟩ := by
  induction h generalizing before prevMin prevMax with
  | nil =>
    show Except.ok before = .ok ⟨before.userId, before.name, before.args ++ [], []⟩
    rw [List.append_nil, ← hbefore]
  | @cons f v fields values hv h ih =>
    rw [List.forall_mem_cons] at hfields
    rw [List.zip_cons_cons, addFields]
    by_cases hrecords : f.isRecords = true
    · -- Nothing follows an array of records, so that no other field replaces its records.
      have hlast : fields = [] := by
        by_contra hne
        rw [not_isRecords_of_placedFrom hplaced hne] at hrecords
        cases hrecords
      have hmatches := hv.matches_of_isRecords hrecords
      subst hlast
      rw [addField_of_isRecords before hrecords hmatches, List.zip_nil_left, arguments_cons,
        if_pos (Field.text_of_isRecords hrecords hmatches), show arguments [] = [] from rfl,
        List.append_nil]
      show Except.ok _ = _
      rw [writtenRecords, List.flatMap_singleton]
    · rw [Bool.not_eq_true] at hrecords
      obtain ⟨s, hs⟩ := Field.exists_render?_of_accepts hfields.1 hrecords hv
      have hadded : ({ before with args := before.args ++ arguments [(f, v)] } : Command).records
          = [] := hbefore
      rw [addField_of_not_isRecords before hs]
      show addFields _ (fields.zip values) = _
      rw [ih hfields.2 hplaced.2 hadded, List.append_assoc, ← arguments_append]
      simp only [writtenRecords, List.flatMap_cons, Field.scaledRecords_of_not_isRecords hrecords,
        List.nil_append, List.singleton_append]

theorem addFields_eq {fields : List Field} {values : List Value} {prevMin prevMax : ℕ}
    (hfields : ∀ f ∈ fields, f.WellFormed) (hplaced : PlacedFrom prevMin prevMax fields)
    (h : List.Forall₂ Field.Matches fields values)
    {before : Command} (hbefore : before.records = []) :
    before.addFields (fields.zip values)
      = .ok ⟨before.userId, before.name, before.args ++ arguments (fields.zip values),
        writtenRecords (fields.zip values)⟩ :=
  addFields_of_accepts hfields hplaced (h.imp fun _ _ => Or.inl) hbefore

/-! ### Reading -/

variable {options : CommandOptions} {cmd : Command}

theorem value_of_get?_none (hrecords : f.isRecords = false) (hget : cmd.get? f.name = none) :
    cmd.value options f = .ok (Value.zero f) := by
  unfold Field.isRecords at hrecords
  unfold value
  cases hkind : f.kind with
  | records recordName columns itemLen maxItems =>
    rw [hkind] at hrecords
    cases hrecords
  | _ => simp only [hget]

theorem value_of_get?_some (hrecords : f.isRecords = false) {s : String}
    (hget : cmd.get? f.name = some s) : cmd.value options f = f.ofText options s.toList := by
  unfold Field.isRecords at hrecords
  unfold value
  cases hkind : f.kind with
  | records recordName columns itemLen maxItems =>
    rw [hkind] at hrecords
    cases hrecords
  | _ => simp only [hget]

/-- A missing argument stands for the zero value, which is what an empty text is read as. -/
theorem value_of_readable (hrecords : f.isRecords = false) {out : Value}
    (h : f.Readable options v out)
    (hget : cmd.get? f.name = if f.text v = [] then none else some (String.ofList (f.text v))) :
    cmd.value options f = .ok out := by
  obtain ⟨s, hrender, hread, hzero⟩ := h
  rw [Field.text_eq hrender] at hget
  by_cases hempty : s = []
  · rw [if_pos hempty] at hget
    rw [value_of_get?_none hrecords hget, hzero hempty]
  · rw [if_neg hempty] at hget
    rw [value_of_get?_some hrecords hget, String.toList_ofList, hread]

theorem value_of_isRecords (hrecords : f.isRecords = true) (hv : f.Matches v)
    (hcmd : cmd.records = f.scaledRecords v) :
    cmd.value options f = .ok (f.clearUndeclared v) := by
  obtain ⟨recordName, columns, itemLen, maxItems, records, hkind, rfl, hmatch⟩ :=
    Field.records_of_matches hrecords hv
  unfold Field.scaledRecords at hcmd
  rw [hkind] at hcmd
  have hcmd' : cmd.records = records.map (scaledRecord columns) := hcmd
  unfold value Field.clearUndeclared
  rw [hkind]
  show (recordsOf options f.name columns [] cmd.records).map Value.records = _
  rw [hcmd', recordsOf_scaledRecord hmatch]
  rfl

/-- Each value is read back from the command of all of them. -/
theorem value_of_accepts {l : Layout} {values : List Value} (hl : l.WellFormed)
    (hflags : ∀ f ∈ l.fields, ∀ name ∈ f.flagNames, IsEntry name.toList)
    (h : List.Forall₂ Field.Accepts l.fields values)
    (hargs : cmd.args = arguments (l.fields.zip values))
    (hrecords : cmd.records = writtenRecords (l.fields.zip values)) (hp : p ∈ l.fields.zip values) :
    cmd.value options p.1 = .ok (p.1.readBack p.2) := by
  have hf : p.1 ∈ l.fields := (List.of_mem_zip hp).1
  have hv : p.1.Accepts p.2 := List.forall₂_zip h hp
  by_cases hlast : p.1.isRecords = true
  · have hmatches := hv.matches_of_isRecords hlast
    rw [Field.readBack_of_matches hmatches]
    refine value_of_isRecords hlast hmatches ?_
    rw [hrecords, writtenRecords_of_mem hl.placed hp hlast]
  · rw [Bool.not_eq_true] at hlast
    refine value_of_readable hlast
      (Field.readable_of_accepts (hl.fields _ hf) (hflags _ hf) hlast hv) ?_
    have hfst : (l.fields.zip values).map Prod.fst = l.fields :=
      List.map_fst_zip (Nat.le_of_eq h.length_eq)
    have hnames : ((l.fields.zip values).map (Field.name ∘ Prod.fst)).Nodup := by
      rw [← List.map_map, hfst]
      exact hl.names
    rw [get?, hargs]
    exact lookup_arguments hnames hp

theorem value_of_mem {l : Layout} {values : List Value} (hl : l.WellFormed)
    (hflags : ∀ f ∈ l.fields, ∀ name ∈ f.flagNames, IsEntry name.toList)
    (h : List.Forall₂ Field.Matches l.fields values)
    (hargs : cmd.args = arguments (l.fields.zip values))
    (hrecords : cmd.records = writtenRecords (l.fields.zip values)) (hp : p ∈ l.fields.zip values) :
    cmd.value options p.1 = .ok (p.1.clearUndeclared p.2) := by
  rw [← Field.readBack_of_matches (List.forall₂_zip h hp)]
  exact value_of_accepts hl hflags (h.imp fun _ _ => Or.inl) hargs hrecords hp

/-- The command of values whose fields have names that are words can be written. -/
theorem writable_of_accepts {l : Layout} {values : List Value} (hl : l.WellFormed)
    (hname : IsWord cmd.name.toList ∧ cmd.name ≠ "\x7b")
    (hwords : ∀ f ∈ l.fields, '=' ∉ f.name.toList ∧ IsWord f.name.toList)
    (h : List.Forall₂ Field.Accepts l.fields values)
    (hargs : cmd.args = arguments (l.fields.zip values))
    (hrecords : cmd.records = writtenRecords (l.fields.zip values)) : cmd.Writable := by
  refine ⟨⟨hname.1, ?_, ?_, ?_⟩, fun _ _ => hname.2⟩
  · intro arg harg
    rw [hargs] at harg
    obtain ⟨⟨p, hp, heq⟩, -⟩ := of_mem_arguments harg
    obtain ⟨hequals, hword⟩ := hwords p.1 (List.of_mem_zip hp).1
    rw [heq]
    exact ⟨hequals, hword.2⟩
  · intro arg harg
    rw [hargs] at harg
    exact (of_mem_arguments harg).2
  · intro record hrecord
    rw [hrecords, writtenRecords, List.mem_flatMap] at hrecord
    obtain ⟨p, hp, hrecord⟩ := hrecord
    exact ne_nil_of_mem_scaledRecords (hl.fields _ (List.of_mem_zip hp).1)
      (List.forall₂_zip h hp) hrecord

theorem writable_of_matches {l : Layout} {values : List Value} (hl : l.WellFormed)
    (hname : IsWord cmd.name.toList ∧ cmd.name ≠ "\x7b")
    (hwords : ∀ f ∈ l.fields, '=' ∉ f.name.toList ∧ IsWord f.name.toList)
    (h : List.Forall₂ Field.Matches l.fields values)
    (hargs : cmd.args = arguments (l.fields.zip values))
    (hrecords : cmd.records = writtenRecords (l.fields.zip values)) : cmd.Writable :=
  writable_of_accepts hl hname hwords (h.imp fun _ _ => Or.inl) hargs hrecords

end Command

namespace Catalogue

variable {version : String} {decls : List MessageDecl} {c : Catalogue} {s : Bytes} {msg : Message}

/-- A message of values that its fields accept has a text form, whatever the names of the catalogue
are. -/
theorem toCommand_of_accepts {m : MessageDef} (hl : m.layout.WellFormed)
    (hm : c.byId? msg.type = some m) (h : List.Forall₂ Field.Accepts m.layout.fields msg.values) :
    c.toCommand msg = .ok ⟨msg.userId, m.command, arguments (m.layout.fields.zip msg.values),
      writtenRecords (m.layout.fields.zip msg.values)⟩ := by
  simp only [toCommand, hm]
  rw [if_neg (not_not.mpr h.length_eq.symm), Command.addFields_of_accepts hl.fields hl.placed h rfl]
  rfl

/-- The values of a decoded message match the fields of its type. -/
theorem matches_of_decode (hc : ofDecls version decls = .ok c) (h : c.decode s = .ok msg) :
    ∃ m ∈ c.messages, c.byId? msg.type = some m ∧ m.id = msg.type ∧
      List.Forall₂ Field.Matches m.layout.fields msg.values := by
  obtain ⟨m, hm, hmap, hparts, -⟩ := decode_eq_ok hc h
  obtain ⟨hmem, hid⟩ := byId?_eq_some hm
  refine ⟨m, hmem, hm, hid, ?_⟩
  rw [← hmap, List.forall₂_map_left_iff]
  exact hparts.imp fun p v hv => hv.1

/-- A decoded message has a text form that is read back as the message, without the bits of flags
that have no name. -/
theorem ofCommand_toCommand_of_decode (hc : ofDecls version decls = .ok c) (hsafe : c.TextSafe)
    (options : CommandOptions) (h : c.decode s = .ok msg) :
    ∃ cmd, c.toCommand msg = .ok cmd ∧ Command.ofText cmd.render = .ok cmd ∧
      c.ofCommand options cmd = .ok (c.clearUndeclared msg) := by
  obtain ⟨m, hmem, hm, hid, hmatches⟩ := matches_of_decode hc h
  have hl := wellFormed_of_mem hc hmem
  have hflags := hsafe.flags m hmem
  have hcommand := hsafe.commands m hmem
  have hwords : ∀ f ∈ m.layout.fields, '=' ∉ f.name.toList ∧ IsWord f.name.toList :=
    fun f hf => ⟨hsafe.fields m hmem f hf, isWord_of_mem hc hmem hf⟩
  refine ⟨⟨msg.userId, m.command, arguments (m.layout.fields.zip msg.values),
    writtenRecords (m.layout.fields.zip msg.values)⟩, ?_, ?_, ?_⟩
  · unfold toCommand
    simp only [hm]
    rw [if_neg (not_not.mpr hmatches.length_eq.symm),
      Command.addFields_eq hl.fields hl.placed hmatches rfl]
    rfl
  · exact Command.ofText_render (Command.writable_of_matches hl hcommand hwords hmatches rfl rfl)
  · have hvalues : m.layout.fields.mapM (Command.value options ⟨msg.userId, m.command,
          arguments (m.layout.fields.zip msg.values),
          writtenRecords (m.layout.fields.zip msg.values)⟩)
        = .ok (List.zipWith Field.clearUndeclared m.layout.fields msg.values) := by
      rw [mapM_eq_ok]
      exact forall₂_zipWith hmatches.length_eq
        (fun p hp => Command.value_of_mem hl hflags hmatches rfl rfl hp)
    unfold ofCommand clearUndeclared
    simp only [byCommand?_of_mem hc hmem, hvalues, hm, hid]

/-- A message with flags, a color, and records with a scaled number. -/
def paintDecls : List MessageDecl :=
  [{ name := "Paint", id := 2
     body := .fields [.long "mode flags" (some (.names ["erase", "smear"])) {},
       .short "color argb32",
       .long "dabs struct" none
         { recordName := some "Dab"
           fields := some [.long "x i16" (some (.format "div4")) {}, .short "size u8"] }] }]

/-- The catalogue of `paintDecls`. -/
def paintCatalogue : Catalogue :=
  ⟨"1", [⟨"Paint", "paint", 2, "", none,
    ⟨[Field.ofScalar "mode" (.flags ["erase", "smear"] .one),
      Field.ofScalar "color" (.integer .argb32 .plain),
      ⟨"dabs", 0, 65529, .records "Dab"
        [⟨"x", .integer .i16 (.div ⟨4, by decide, by decide⟩)⟩, ⟨"size", .integer .u8 .plain⟩]
        3 21843⟩], 5, 65534⟩⟩]⟩

theorem ofDecls_paintDecls : ofDecls "1" paintDecls = .ok paintCatalogue := by
  cbv

theorem textSafe_paintCatalogue : paintCatalogue.TextSafe := by
  refine ⟨?_, ?_, ?_⟩
  · intro m hm
    cases hm with
    | head => exact ⟨⟨by decide, by simp [isBlank]⟩, by decide⟩
    | tail _ hm => cases hm
  · decide
  · intro m hm f hf name hname
    have hall : ∀ name ∈ ["erase", "smear"], IsEntry name.toList := by
      unfold IsEntry
      decide
    cases hm with
    | head =>
      rcases List.mem_cons.mp hf with rfl | hf
      · exact hall name hname
      rcases List.mem_cons.mp hf with rfl | hf
      · cases hname
      rcases List.mem_cons.mp hf with rfl | hf
      · cases hname
      · cases hf
    | tail _ hm => cases hm

theorem ofCommand_toCommand_paint :
    ∃ cmd, paintCatalogue.toCommand ⟨7, 2, [.int 5, .int 0x80ff0010, .records [[-2, 9], [1, 2]]]⟩
        = .ok cmd ∧ Command.ofText cmd.render = .ok cmd ∧
      paintCatalogue.ofCommand {} cmd
        = .ok ⟨7, 2, [.int 1, .int 0x80ff0010, .records [[-2, 9], [1, 2]]]⟩ := by
  have hread : paintCatalogue.decode [0, 11, 2, 7, 5, 0x80, 0xff, 0, 0x10, 0xff, 0xfe, 9, 0, 1, 2]
      = .ok ⟨7, 2, [.int 5, .int 0x80ff0010, .records [[-2, 9], [1, 2]]]⟩ := by cbv
  exact ofCommand_toCommand_of_decode ofDecls_paintDecls textSafe_paintCatalogue {} hread

end Catalogue

end WireSchema
