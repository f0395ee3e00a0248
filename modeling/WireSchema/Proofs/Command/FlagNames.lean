import Mathlib
import WireSchema.Proofs.Command.Flags
import WireSchema.Proofs.Results

/-!
# The names of flags

Flags are written as names with commas between them, and a declaration may give them any names that
differ from each other. A name with a comma is cut apart when it is read, one with a blank at its
end is trimmed and an empty one is left out. What is read instead are always names without any of
this. Hence no text sets the bits of the other names, and flags come back exactly if all that are
set have names which a comma list gives back.

* `haveEntries_of_readFlags` — the names of the bits that a text sets;
* `readFlags_joinList_iff` — the names that are read as their bits;
* `hasBit_lt_iff` — the numbers whose bits all have a name;
* `Field.ofText_flags_iff` — the flags and the lists of names that come back.
-/

namespace WireSchema

open WireSchema.Text

/-! ### The bits that a text sets -/

/-- Each bit has a name that a comma list gives back. -/
def HaveEntries (names : List String) (bits : ℕ) : Prop :=
  ∀ i, bits.testBit i = true → ∃ name, names[i]? = some name ∧ IsEntry name.toList

theorem haveEntries_addFlag {options : CommandOptions} {field : String} {names : List String}
    {bits bits' : ℕ} {entry : List Char} (hentry : IsEntry entry) (hbits : HaveEntries names bits)
    (h : addFlag options field names bits entry = .ok bits') : HaveEntries names bits' := by
  rcases addFlag_eq_ok h with ⟨i, hi, rfl⟩ | rfl
  · intro j hj
    rw [Nat.testBit_or, Bool.or_eq_true, Nat.one_shiftLeft, Nat.testBit_two_pow,
      decide_eq_true_eq] at hj
    rcases hj with hj | rfl
    · exact hbits j hj
    · obtain ⟨hlt, hname, -⟩ := List.idxOf?_eq_some_iff.mp hi
      refine ⟨String.ofList entry, ?_, ?_⟩
      · rw [List.getElem?_eq_getElem hlt, hname]
      · rwa [String.toList_ofList]
  · exact hbits

/-- No text sets the bit of a name that a comma list does not give back. -/
theorem haveEntries_of_readFlags {options : CommandOptions} {field : String} {names : List String}
    {s : List Char} {n : ℕ} (h : readFlags options field names s = .ok (n : ℤ)) :
    HaveEntries names n := by
  rw [readFlags, bind_eq_ok] at h
  obtain ⟨bits, hbits, h⟩ := h
  obtain rfl : bits = n := Int.ofNat.inj (Except.ok.inj h)
  have hnone : HaveEntries names 0 := by
    intro i hi
    rw [Nat.zero_testBit] at hi
    cases hi
  exact foldlM_invariant (P := HaveEntries names)
    (fun entry hentry _ _ => haveEntries_addFlag (isEntry_of_mem_listEntries hentry)) hnone hbits

/-- Names of flags are read as their bits exactly if a comma list gives each of them back. -/
theorem readFlags_joinList_iff {names : List String} (h : names.Nodup)
    (hlength : names.length ≤ 63) (options : CommandOptions) (field : String)
    {entries : List (String × ℕ)} (hsub : entries ⊆ names.zipIdx) :
    readFlags options field names (joinList (entries.map fun entry => entry.1.toList))
        = .ok (flagBits entries 0 : ℕ) ↔ ∀ entry ∈ entries, IsEntry entry.1.toList := by
  refine ⟨fun hread => ?_, readFlags_joinList h hlength options field hsub⟩
  rintro ⟨name, i⟩ hentry
  have hbit : (flagBits entries 0).testBit i = true :=
    (testBit_flagBits entries 0 i).mpr (Or.inr ⟨_, hentry, rfl⟩)
  obtain ⟨name', hname', hisEntry⟩ := haveEntries_of_readFlags hread i hbit
  have hname := List.mk_mem_zipIdx_iff_getElem?.mp (hsub hentry)
  rw [Option.some.inj (hname.symm.trans hname')]
  exact hisEntry

/-! ### Numbers whose bits have names -/

/-- A negative number has bits beyond any limit. -/
theorem exists_hasBit_negSucc (m k : ℕ) : ∃ i, k ≤ i ∧ hasBit (Int.negSucc m) i = true := by
  refine ⟨k + m, Nat.le_add_right k m, ?_⟩
  have hshift : Int.negSucc m >>> (k + m) = Int.negSucc (m >>> (k + m)) := rfl
  have hsmall : m < 2 ^ (k + m) :=
    Nat.lt_of_lt_of_le Nat.lt_two_pow_self (Nat.pow_le_pow_right (by decide) (Nat.le_add_left m k))
  rw [hasBit, hshift, Nat.shiftRight_eq_div_pow, Nat.div_eq_of_lt hsmall]
  rfl

/-- The numbers with bits below a limit only. -/
theorem hasBit_lt_iff {v : ℤ} {k : ℕ} :
    (∀ i, hasBit v i = true → i < k) ↔ ∃ n : ℕ, v = n ∧ n < 2 ^ k := by
  constructor
  · intro h
    cases v with
    | ofNat n =>
      refine ⟨n, rfl, Nat.lt_pow_two_of_testBit n fun i hi => ?_⟩
      rw [← Bool.not_eq_true, ← hasBit_natCast]
      exact fun hbit => absurd (h i hbit) (Nat.not_lt.mpr hi)
    | negSucc m =>
      obtain ⟨i, hi, hbit⟩ := exists_hasBit_negSucc m k
      exact absurd (h i hbit) (Nat.not_lt.mpr hi)
  · rintro ⟨n, rfl, hn⟩ i hi
    exact lt_of_hasBit hn hi

/-! ### Declared flags -/

namespace Field

variable {f : Field} {names : List String} {width : ByteWidth}

/-- Names that are declared, with the positions that their bits have. -/
theorem exists_entries (hkind : f.kind = .scalar (.flags names width)) (hnodup : names.Nodup)
    {chosen : List String} (h : chosen ⊆ names) :
    ∃ entries ⊆ names.zipIdx, entries.map Prod.fst = chosen ∧
      chosen.filterMap f.flagMask? = entries.map fun entry => 1 <<< entry.2 := by
  induction chosen with
  | nil => exact ⟨[], List.nil_subset _, rfl, rfl⟩
  | cons name chosen ih =>
    rw [List.cons_subset] at h
    obtain ⟨entries, hsub, hnames, hmasks⟩ := ih h.2
    obtain ⟨i, hi⟩ := List.mem_iff_getElem?.mp h.1
    have hmem : (name, i) ∈ names.zipIdx := List.mk_mem_zipIdx_iff_getElem?.mpr hi
    have hmask : f.flagMask? name = some (1 <<< i) := by
      rw [flagMask?_eq hkind, idxOf?_of_nodup hnodup hi, Nat.one_shiftLeft]
      rfl
    refine ⟨(name, i) :: entries, List.cons_subset.mpr ⟨hmem, hsub⟩, ?_, ?_⟩
    · rw [List.map_cons, hnames]
    · rw [List.filterMap_cons_some hmask, hmasks, List.map_cons]

theorem ofText_flags_eq_ok (hkind : f.kind = .scalar (.flags names width))
    {options : CommandOptions} {s : List Char} {v : ℤ} :
    f.ofText options s = .ok (.int v) ↔ readFlags options f.name names s = .ok v := by
  unfold ofText
  rw [hkind]
  show (readFlags options f.name names s).map Value.int = _ ↔ _
  rw [map_eq_ok]
  constructor
  · rintro ⟨n, hn, hv⟩
    rwa [← Value.int.inj hv]
  · exact fun hread => ⟨v, hread, rfl⟩

variable {d : FieldDecl} {isLast : Bool} {prevMin prevMax : ℕ}

/-- Flags that are declared come back from their text exactly if each that is set has a name which a
comma list gives back: one that is not empty, has no comma and no blank at its ends. The same holds
of any names of them that are joined by commas, in any order and also repeated, and of the bits that
they stand for. -/
theorem ofText_flags_iff (h : ofDecl d isLast prevMin prevMax = .ok f)
    (hkind : f.kind = .scalar (.flags names width)) (options : CommandOptions) :
    (∀ v : ℤ, (∀ i, hasBit v i = true → i < names.length) →
      ∃ s, f.kind.render? (.int v) = some s ∧
        (f.ofText options s = .ok (.int v) ↔
          ∀ i name, names[i]? = some name → hasBit v i = true → IsEntry name.toList)) ∧
      ∀ chosen ⊆ names,
        (f.ofText options (joinList (chosen.map String.toList))
            = .ok (.int ((chosen.filterMap f.flagMask?).foldl (· ||| ·) 0 : ℕ)) ↔
          ∀ name ∈ chosen, IsEntry name.toList) := by
  have hflags := ((wellFormed_of_ofDecl h).scalar hkind).1
  have hnodup : names.Nodup := hflags.1
  have hlength := ScalarKind.length_names_le hflags
  constructor
  · intro v hv
    obtain ⟨n, rfl, hn⟩ := hasBit_lt_iff.mp hv
    have hread := readFlags_joinList_iff hnodup hlength options f.name (setFlags_subset names n)
    rw [flagBits_setFlags, Nat.mod_eq_of_lt hn] at hread
    refine ⟨renderFlags names n, by rw [hkind]; rfl, ?_⟩
    rw [ofText_flags_eq_ok hkind]
    refine hread.trans ⟨fun hall i name hname hbit => ?_, fun hall entry hentry => ?_⟩
    · have hset : (name, i) ∈ setFlags names n :=
        List.mem_filter.mpr ⟨List.mk_mem_zipIdx_iff_getElem?.mpr hname, hbit⟩
      exact hall _ hset
    · obtain ⟨hmem, hbit⟩ := List.mem_filter.mp hentry
      exact hall _ _ (List.mk_mem_zipIdx_iff_getElem?.mp hmem) hbit
  · intro chosen hchosen
    obtain ⟨entries, hsub, rfl, hmasks⟩ := exists_entries hkind hnodup hchosen
    have hread := readFlags_joinList_iff hnodup hlength options f.name hsub
    rw [ofText_flags_eq_ok hkind, hmasks, List.foldl_map, List.map_map, List.forall_mem_map]
    exact hread

/-- Flags where the first name has a comma. -/
def toolDecl : FieldDecl :=
  .long "mode flags" (some (.names ["pen,soft", "smear"])) {}

/-- The field of `toolDecl`. -/
def toolField : Field :=
  ofScalar "mode" (.flags ["pen,soft", "smear"] .one)

theorem ofDecl_toolDecl : ofDecl toolDecl true 0 0 = .ok toolField := by
  cbv

theorem hasBit_lt_tool {n : ℕ} (hn : n < 2 ^ 2) :
    ∀ i, hasBit (n : ℤ) i = true → i < ["pen,soft", "smear"].length :=
  fun _ => lt_of_hasBit hn

/-- The second flag comes back, alone and twice in a list. -/
theorem ofText_flags_tool :
    toolField.ofText {} "smear".toList = .ok (.int 2) ∧
      toolField.ofText {} "smear,smear".toList = .ok (.int 2) := by
  obtain ⟨hvalues, hlists⟩ := ofText_flags_iff ofDecl_toolDecl rfl {}
  have hsmear : IsEntry "smear".toList := by
    unfold IsEntry
    decide
  obtain ⟨s, hs, hread⟩ := hvalues (2 : ℕ) (hasBit_lt_tool (by decide))
  have hrender : toolField.kind.render? (.int (2 : ℕ)) = some "smear".toList := by decide
  cases hrender.symm.trans hs
  refine ⟨hread.mpr fun i name hname hbit => ?_, ?_⟩
  · match i, hname with
    | 0, _ => exact absurd hbit (by decide)
    | 1, hname => exact Option.some.inj hname ▸ hsmear
  · refine (hlists ["smear", "smear"] (by decide)).mpr fun name hname => ?_
    rw [show name = "smear" by simpa using hname]
    exact hsmear

/-- A flag with a comma in its name is read as none, or not at all. -/
theorem flags_not_read_back :
    ¬∀ (d : FieldDecl) (isLast : Bool) (prevMin prevMax : ℕ) (f : Field) (names : List String)
      (width : ByteWidth) (options : CommandOptions), ofDecl d isLast prevMin prevMax = .ok f →
        f.kind = .scalar (.flags names width) →
          ∀ v : ℤ, (∀ i, hasBit v i = true → i < names.length) →
            readFlags options f.name names (renderFlags names v) = .ok v := by
  intro h
  have hread := h _ _ _ _ _ _ _ {} ofDecl_toolDecl rfl (1 : ℕ) (hasBit_lt_tool (by decide))
  exact absurd hread (by decide)

end Field

end WireSchema
