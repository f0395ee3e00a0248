import Mathlib
import WireSchema.Proofs.Command.RoundTrip

/-!
# Strict and lax options

A command that is read under stricter options gives the same message or the same error, or else it
is refused because of one of its unknown flags or of one of its records. So stricter options neither
change a message nor show or hide any other error. Nothing is claimed about options of which neither
is the stricter, beyond what follows from the strictest and the laxest ones.

* `Narrows` — a result that is kept or refused, and the same for steps, folds and lists;
* `CommandOptions.Stricter`, `CommandOptions.Refuses` — the order of options, and what they refuse;
* `Command.value_narrows`, `Catalogue.ofCommand_narrows` — fields and messages;
* `Catalogue.ofCommand_strict` — the strictest and the laxest options.
-/

namespace WireSchema

open WireSchema.Text

/-! ### Results that are kept or refused -/

section Narrows

variable {ε α β : Type} {P Q : ε → Prop}

/-- A result that is the same as another one, or else an error of a certain kind. -/
def Narrows (P : ε → Prop) (x y : Except ε α) : Prop :=
  x = y ∨ ∃ e, x = .error e ∧ P e

theorem Narrows.refl (x : Except ε α) : Narrows P x x :=
  Or.inl rfl

theorem Narrows.refused {e : ε} (h : P e) (y : Except ε α) : Narrows P (.error e) y :=
  Or.inr ⟨e, rfl, h⟩

theorem Narrows.mono {x y : Except ε α} (h : Narrows P x y) (hPQ : ∀ e, P e → Q e) :
    Narrows Q x y := by
  rcases h with rfl | ⟨e, rfl, he⟩
  · exact .refl x
  · exact .refused (hPQ e he) y

theorem Narrows.eq_ok {x y : Except ε α} {a : α} (h : Narrows P x y) (hx : x = .ok a) :
    y = .ok a := by
  rcases h with rfl | ⟨e, rfl, -⟩
  · exact hx
  · cases hx

theorem Narrows.of_error {x y : Except ε α} {a : α} {e : ε} (h : Narrows P x y) (hy : y = .ok a)
    (hx : x = .error e) : P e := by
  rcases h with rfl | ⟨e', rfl, he⟩
  · rw [hy] at hx
    cases hx
  · cases hx
    exact he

theorem Narrows.bind {x y : Except ε α} {f g : α → Except ε β} (h : Narrows P x y)
    (hstep : ∀ a, Narrows P (f a) (g a)) : Narrows P (x >>= f) (y >>= g) := by
  rcases h with rfl | ⟨e, rfl, he⟩
  · cases x with
    | error e => exact .refl (.error e)
    | ok a => exact hstep a
  · exact .refused he _

theorem Narrows.map {x y : Except ε α} (h : Narrows P x y) (f : α → β) :
    Narrows P (x.map f) (y.map f) := by
  rcases h with rfl | ⟨e, rfl, he⟩
  · exact .refl _
  · exact .refused he _

theorem narrows_mapM {f g : α → Except ε β} {list : List α}
    (h : ∀ a ∈ list, Narrows P (f a) (g a)) : Narrows P (list.mapM f) (list.mapM g) := by
  induction list with
  | nil => exact .refl _
  | cons a list ih =>
    rw [List.forall_mem_cons] at h
    rw [List.mapM_cons, List.mapM_cons]
    apply Narrows.bind h.1
    intro b
    apply Narrows.bind (ih h.2)
    intro bs
    exact .refl _

theorem narrows_foldlM {f g : β → α → Except ε β} {list : List α}
    (h : ∀ a ∈ list, ∀ b, Narrows P (f b a) (g b a)) (b : β) :
    Narrows P (list.foldlM f b) (list.foldlM g b) := by
  induction list generalizing b with
  | nil => exact .refl _
  | cons a list ih =>
    rw [List.forall_mem_cons] at h
    rw [List.foldlM_cons, List.foldlM_cons]
    apply Narrows.bind (h.1 b)
    intro b'
    exact ih h.2 b'

end Narrows

/-! ### The order of options -/

namespace CommandOptions

/-- Options that refuse whatever others do, and are the same otherwise. -/
structure Stricter (strict lax : CommandOptions) : Prop where
  unknownFlags : strict.unknownFlags = .reject ∨ strict.unknownFlags = lax.unknownFlags
  strictRecords : strict.strictRecords = true ∨ strict.strictRecords = lax.strictRecords

theorem stricter_strictest (options : CommandOptions) : Stricter ⟨.reject, true⟩ options :=
  ⟨Or.inl rfl, Or.inl rfl⟩

theorem stricter_laxest (options : CommandOptions) : Stricter options ⟨.ignore, false⟩ := by
  obtain ⟨unknownFlags, strictRecords⟩ := options
  constructor
  · cases unknownFlags with
    | ignore => exact Or.inr rfl
    | reject => exact Or.inl rfl
  · cases strictRecords with
    | false => exact Or.inr rfl
    | true => exact Or.inl rfl

/-- The error of a name that is not among those of the flags. -/
def RefusesFlag (options : CommandOptions) (field : String) (names : List String)
    (entries : List (List Char)) (e : CommandError) : Prop :=
  options.unknownFlags = .reject ∧
    ∃ entry ∈ entries, String.ofList entry ∉ names ∧ e = .unknownFlag field (String.ofList entry)

/-- The error of a record that has not one value for each column. -/
def RefusesRecord (options : CommandOptions) (field : String) (columns : List Column)
    (records : List (List Binary64)) (e : CommandError) : Prop :=
  options.strictRecords = true ∧
    ∃ record ∈ records, record.length ≠ columns.length ∧
      e = .recordArity field columns.length record.length

/-- The errors with which options refuse a field of a command. -/
inductive Refuses (options : CommandOptions) (cmd : Command) (f : Field) (e : CommandError) : Prop
  | flag {names : List String} {width : ByteWidth} {s : String}
      (hkind : f.kind = .scalar (.flags names width)) (hs : cmd.get? f.name = some s)
      (h : options.RefusesFlag f.name names (listEntries s.toList) e)
  | record {recordName : String} {columns : List Column} {itemLen maxItems : ℕ}
      (hkind : f.kind = .records recordName columns itemLen maxItems)
      (h : options.RefusesRecord f.name columns cmd.records e)

end CommandOptions

/-! ### Flags and records -/

variable {strict lax : CommandOptions}

theorem addFlag_narrows (h : strict.Stricter lax) (field : String) (names : List String) (bits : ℕ)
    {entries : List (List Char)} {entry : List Char} (hentry : entry ∈ entries) :
    Narrows (strict.RefusesFlag field names entries) (addFlag strict field names bits entry)
      (addFlag lax field names bits entry) := by
  simp only [addFlag]
  cases hindex : names.idxOf? (String.ofList entry) with
  | some i => exact .refl _
  | none =>
    rcases h.unknownFlags with hreject | hsame
    · rw [hreject]
      exact .refused ⟨hreject, entry, hentry, List.idxOf?_eq_none_iff.mp hindex, rfl⟩ _
    · rw [hsame]
      exact .refl _

/-- Flags are read the same, or refused because of a name that is not declared. -/
theorem readFlags_narrows (h : strict.Stricter lax) (field : String) (names : List String)
    (s : List Char) :
    Narrows (strict.RefusesFlag field names (listEntries s)) (readFlags strict field names s)
      (readFlags lax field names s) := by
  apply Narrows.bind
  · apply narrows_foldlM
    intro entry hentry bits
    exact addFlag_narrows h field names bits hentry
  · intro bits
    exact .refl _

/-- Records are read the same, or refused because of one with a wrong number of values. Those that
are left out change nothing for the ones after them. -/
theorem recordsOf_narrows (h : strict.Stricter lax) (field : String) (columns : List Column)
    (done : List (List ℤ)) (records : List (List Binary64)) :
    Narrows (strict.RefusesRecord field columns records)
      (recordsOf strict field columns done records) (recordsOf lax field columns done records) := by
  induction records generalizing done with
  | nil => exact .refl _
  | cons record rest ih =>
    have hrest : ∀ done, Narrows (strict.RefusesRecord field columns (record :: rest))
        (recordsOf strict field columns done rest) (recordsOf lax field columns done rest) := by
      intro done
      apply (ih done).mono
      rintro e ⟨hoption, record', hmem, hrecord⟩
      exact ⟨hoption, record', List.mem_cons_of_mem record hmem, hrecord⟩
    rw [recordsOf, recordsOf]
    by_cases hlength : record.length ≠ columns.length
    · rw [if_pos hlength, if_pos hlength]
      rcases h.strictRecords with hstrict | hsame
      · rw [if_pos hstrict]
        exact .refused ⟨hstrict, record, List.mem_cons_self, hlength, rfl⟩ _
      · rw [hsame]
        split
        · exact .refl _
        · exact hrest done
    · rw [if_neg hlength, if_neg hlength]
      cases readRecord columns record with
      | error e => exact .refl _
      | ok numbers => exact hrest (numbers :: done)

/-! ### Fields and messages -/

/-- The value of a field is the same, or the field is refused. -/
theorem Command.value_narrows (h : strict.Stricter lax) (cmd : Command) (f : Field) :
    Narrows (strict.Refuses cmd f) (cmd.value strict f) (cmd.value lax f) := by
  simp only [value]
  split
  · rename_i recordName columns itemLen maxItems hkind
    apply (Narrows.map (recordsOf_narrows h f.name columns [] cmd.records) Value.records).mono
    intro e he
    exact .record hkind he
  · cases hs : cmd.get? f.name with
    | none => exact .refl _
    | some s =>
      show Narrows _ (f.ofText strict s.toList) (f.ofText lax s.toList)
      unfold Field.ofText
      split
      case h_4 names width hkind =>
        apply (Narrows.map (readFlags_narrows h f.name names s.toList) Value.int).mono
        intro e he
        exact .flag hkind hs he
      -- No other kind of field reads its text under options.
      all_goals exact .refl _

namespace Catalogue

/-- The errors with which options refuse a command: those of the fields that its message has. -/
def Refuses (c : Catalogue) (options : CommandOptions) (cmd : Command) (e : CommandError) : Prop :=
  ∃ m, c.byCommand? cmd.name = some m ∧ ∃ f ∈ m.layout.fields, options.Refuses cmd f e

/-- The message of a command is the same under stricter options, or so is its error, or one of its
fields is refused. -/
theorem ofCommand_narrows (h : strict.Stricter lax) (c : Catalogue) (cmd : Command) :
    Narrows (c.Refuses strict cmd) (c.ofCommand strict cmd) (c.ofCommand lax cmd) := by
  simp only [ofCommand]
  cases hm : c.byCommand? cmd.name with
  | none => exact .refl _
  | some m =>
    have hvalues : Narrows (c.Refuses strict cmd) (m.layout.fields.mapM (cmd.value strict))
        (m.layout.fields.mapM (cmd.value lax)) := by
      apply narrows_mapM
      intro f hf
      apply (Command.value_narrows h cmd f).mono
      intro e he
      exact ⟨m, hm, f, hf, he⟩
    rcases hvalues with hsame | ⟨e, herror, he⟩
    · simp only [hsame]
      exact .refl _
    · simp only [herror]
      exact .refused he _

/-- A command is refused with one of two errors. -/
theorem Refuses.eq_error {c : Catalogue} {options : CommandOptions} {cmd : Command}
    {e : CommandError} (h : c.Refuses options cmd e) :
    (∃ field flag, e = .unknownFlag field flag) ∨
      ∃ field expected actual, e = .recordArity field expected actual := by
  obtain ⟨m, -, f, -, h⟩ := h
  cases h with
  | flag hkind hs h =>
    obtain ⟨-, entry, -, -, rfl⟩ := h
    exact Or.inl ⟨_, _, rfl⟩
  | record hkind h =>
    obtain ⟨-, record, -, -, rfl⟩ := h
    exact Or.inr ⟨_, _, _, rfl⟩

/-- Options only refuse. A message that is read under the strictest options is read the same under
all, and a command that is read under the laxest ones is refused by others only because of a flag
that is not declared or of a record that has not one value for each column. More than that, of two
options the stricter one gives the same message or error, or refuses the command like this. -/
theorem ofCommand_strict (c : Catalogue) (cmd : Command) (options : CommandOptions) :
    (∀ msg, c.ofCommand ⟨.reject, true⟩ cmd = .ok msg → c.ofCommand options cmd = .ok msg) ∧
      (∀ msg e, c.ofCommand ⟨.ignore, false⟩ cmd = .ok msg → c.ofCommand options cmd = .error e →
        c.Refuses options cmd e ∧ ((∃ field flag, e = .unknownFlag field flag) ∨
          ∃ field expected actual, e = .recordArity field expected actual)) ∧
      ∀ lax, options.Stricter lax → c.ofCommand options cmd = c.ofCommand lax cmd ∨
        ∃ e, c.ofCommand options cmd = .error e ∧ c.Refuses options cmd e := by
  refine ⟨?_, ?_, ?_⟩
  · intro msg hmsg
    exact (ofCommand_narrows (CommandOptions.stricter_strictest options) c cmd).eq_ok hmsg
  · intro msg e hmsg herror
    have hrefuses :=
      (ofCommand_narrows (CommandOptions.stricter_laxest options) c cmd).of_error hmsg herror
    exact ⟨hrefuses, hrefuses.eq_error⟩
  · intro lax h
    exact ofCommand_narrows h c cmd

/-- A command with one flag and one record. -/
def smearCommand : Command :=
  ⟨7, "paint", [("mode", "smear")], [[.zero false, .zero false]]⟩

/-- The same command with a flag that is not declared, and a record that lacks a value. -/
def blurCommand : Command :=
  ⟨7, "paint", [("mode", "blur,smear")], [[.zero false], [.zero false, .zero false]]⟩

theorem ofCommand_strict_paint :
    (paintCatalogue.ofCommand ⟨.reject, true⟩ smearCommand
        = .ok ⟨7, 2, [.int 2, .int 0, .records [[0, 0]]]⟩ ∧
      paintCatalogue.ofCommand ⟨.reject, false⟩ smearCommand
        = .ok ⟨7, 2, [.int 2, .int 0, .records [[0, 0]]]⟩) ∧
      (paintCatalogue.ofCommand ⟨.ignore, false⟩ blurCommand
          = .ok ⟨7, 2, [.int 2, .int 0, .records [[0, 0]]]⟩ ∧
        paintCatalogue.ofCommand ⟨.reject, false⟩ blurCommand
          = .error (.unknownFlag "mode" "blur") ∧
        paintCatalogue.Refuses ⟨.reject, false⟩ blurCommand (.unknownFlag "mode" "blur")) ∧
      CommandOptions.Stricter ⟨.reject, false⟩ ⟨.ignore, false⟩ ∧
        (paintCatalogue.ofCommand ⟨.reject, false⟩ blurCommand
            = paintCatalogue.ofCommand ⟨.ignore, false⟩ blurCommand ∨
          ∃ e, paintCatalogue.ofCommand ⟨.reject, false⟩ blurCommand = .error e ∧
            paintCatalogue.Refuses ⟨.reject, false⟩ blurCommand e) := by
  have hsmear : paintCatalogue.ofCommand ⟨.reject, true⟩ smearCommand
      = .ok ⟨7, 2, [.int 2, .int 0, .records [[0, 0]]]⟩ := by cbv
  have hblur : paintCatalogue.ofCommand ⟨.ignore, false⟩ blurCommand
      = .ok ⟨7, 2, [.int 2, .int 0, .records [[0, 0]]]⟩ := by cbv
  have hflag : paintCatalogue.ofCommand ⟨.reject, false⟩ blurCommand
      = .error (.unknownFlag "mode" "blur") := by cbv
  have hstricter := CommandOptions.stricter_laxest ⟨.reject, false⟩
  obtain ⟨-, hrefused, hordered⟩ := ofCommand_strict paintCatalogue blurCommand ⟨.reject, false⟩
  refine ⟨⟨hsmear, ?_⟩, ⟨hblur, hflag, (hrefused _ _ hblur hflag).1⟩, hstricter,
    hordered _ hstricter⟩
  exact (ofCommand_strict paintCatalogue smearCommand ⟨.reject, false⟩).1 _ hsmear

end Catalogue

end WireSchema
