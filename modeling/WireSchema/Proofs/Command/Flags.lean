import Mathlib
import WireSchema.Command.Convert
import WireSchema.Proofs.Command.Number
import WireSchema.Proofs.Schema.Invariant
import WireSchema.Proofs.Text.Split

/-!
# Flags in commands

Flags are written as the names of the bits that are set and read back from them, so that exactly the
bits without a name are lost.

* `testBit_flagBits` — the bits of some flags;
* `addFlag_of_idxOf?`, `addFlag_eq_ok` — what one more name does;
* `readFlags_joinList` — names are read as their bits;
* `readFlags_renderFlags` — flags are read back without the bits that have no name.
-/

namespace WireSchema

open WireSchema.Text

/-- The bits at the positions of named flags. -/
def flagBits (entries : List (String × ℕ)) (bits : ℕ) : ℕ :=
  entries.foldl (fun bits entry => bits ||| 1 <<< entry.2) bits

/-- A bit is set if it was set before or one of the flags is at its position. -/
theorem testBit_flagBits (entries : List (String × ℕ)) (bits j : ℕ) :
    (flagBits entries bits).testBit j = true ↔
      bits.testBit j = true ∨ ∃ entry ∈ entries, entry.2 = j := by
  induction entries generalizing bits with
  | nil => simp [flagBits]
  | cons entry entries ih =>
    show (flagBits entries (bits ||| 1 <<< entry.2)).testBit j = true ↔ _
    rw [ih, Nat.testBit_or, Bool.or_eq_true, Nat.one_shiftLeft, Nat.testBit_two_pow,
      decide_eq_true_eq, List.exists_mem_cons_iff, or_assoc]

theorem hasBit_natCast (n i : ℕ) : hasBit (n : ℤ) i = n.testBit i := by
  have hshift : (n : ℤ) >>> i = ((n >>> i : ℕ) : ℤ) := rfl
  rw [hasBit, hshift, Nat.testBit_eq_decide_div_mod_eq, Nat.shiftRight_eq_div_pow]
  rw [Bool.eq_iff_iff, beq_iff_eq, decide_eq_true_eq]
  omega

/-- The bits of a number are below the power of two that bounds it. -/
theorem lt_of_hasBit {n k i : ℕ} (hn : n < 2 ^ k) (h : hasBit (n : ℤ) i = true) : i < k := by
  rw [hasBit_natCast] at h
  by_contra hik
  have hsmall : n < 2 ^ i :=
    Nat.lt_of_lt_of_le hn (Nat.pow_le_pow_right (by decide) (Nat.not_lt.mp hik))
  rw [Nat.testBit_lt_two_pow hsmall] at h
  cases h

/-- The flags that are set, with their positions. -/
def setFlags (names : List String) (v : ℤ) : List (String × ℕ) :=
  names.zipIdx.filter fun entry => hasBit v entry.2

/-- The flags that are set make up the bits that have a name. -/
theorem flagBits_setFlags (names : List String) (n : ℕ) :
    flagBits (setFlags names n) 0 = n % 2 ^ names.length := by
  refine Nat.eq_of_testBit_eq fun j => ?_
  rw [Bool.eq_iff_iff, testBit_flagBits, Nat.testBit_mod_two_pow, Bool.and_eq_true,
    decide_eq_true_eq, Nat.zero_testBit]
  constructor
  · rintro (hfalse | ⟨⟨name, i⟩, hmem, rfl⟩)
    · exact absurd hfalse Bool.false_ne_true
    · rw [setFlags, List.mem_filter, hasBit_natCast] at hmem
      exact ⟨by simpa using List.snd_lt_of_mem_zipIdx hmem.1, hmem.2⟩
  · rintro ⟨hj, hbit⟩
    refine Or.inr ⟨(names[j], j), ?_, rfl⟩
    rw [setFlags, List.mem_filter, hasBit_natCast]
    exact ⟨List.mem_zipIdx_iff_getElem?.mpr (List.getElem?_eq_getElem hj), hbit⟩

/-- A name is found at its position. -/
theorem idxOf?_of_mem_zipIdx {names : List String} (h : names.Nodup) {name : String} {i : ℕ}
    (hmem : (name, i) ∈ names.zipIdx) : names.idxOf? name = some i :=
  idxOf?_of_nodup h (List.mk_mem_zipIdx_iff_getElem?.mp hmem)

/-- There are no more flags than bits in the widest field. -/
theorem ScalarKind.length_names_le {names : List String} {width : ByteWidth}
    (h : (ScalarKind.flags names width).WellFormed) : names.length ≤ 63 := by
  have hwidth : 8 * width.bytes ≤ 32 := by
    cases width <;> decide
  have hnames : names.length ≤ 8 * width.bytes := h.2
  omega

/-- A declared name sets its bit, which is in range. -/
theorem addFlag_of_idxOf? {names : List String} (hlength : names.length ≤ 63)
    (options : CommandOptions) (field : String) (bits : ℕ) {entry : List Char} {i : ℕ}
    (h : names.idxOf? (String.ofList entry) = some i) :
    addFlag options field names bits entry = .ok (bits ||| 1 <<< i) := by
  obtain ⟨hlt, -⟩ := List.idxOf?_eq_some_iff.mp h
  rw [addFlag, h]
  simp only [bit64_of_lt (show i < 63 by omega)]
  rfl

/-- One more name sets its bit if it is declared, and no bit if it is left out. -/
theorem addFlag_eq_ok {options : CommandOptions} {field : String} {names : List String}
    {bits bits' : ℕ} {entry : List Char} (h : addFlag options field names bits entry = .ok bits') :
    (∃ i, names.idxOf? (String.ofList entry) = some i ∧ bits' = bits ||| 1 <<< i) ∨
      bits' = bits := by
  unfold addFlag at h
  split at h
  · rename_i i hi
    obtain ⟨bit, hbit, h⟩ := bind_eq_ok.mp h
    cases h
    rw [← (checked64_eq_ok.mp hbit).2]
    exact Or.inl ⟨i, hi, rfl⟩
  · split at h
    · cases h
    · exact Or.inr (Except.ok.inj h).symm

theorem foldlM_addFlag {names : List String} (h : names.Nodup) (hlength : names.length ≤ 63)
    (options : CommandOptions) (field : String) {entries : List (String × ℕ)}
    (hentries : entries ⊆ names.zipIdx) (bits : ℕ) :
    (entries.map fun entry => entry.1.toList).foldlM (addFlag options field names) bits
      = .ok (flagBits entries bits) := by
  induction entries generalizing bits with
  | nil => rfl
  | cons entry entries ih =>
    have hidx := idxOf?_of_mem_zipIdx h (hentries List.mem_cons_self)
    have hadd : addFlag options field names bits entry.1.toList = .ok (bits ||| 1 <<< entry.2) :=
      addFlag_of_idxOf? hlength options field bits (by rwa [String.ofList_toList])
    rw [List.map_cons, List.foldlM_cons, hadd]
    exact ih (fun e he => hentries (List.mem_cons_of_mem _ he)) _

/-- Names that a comma list gives back are read as their bits. -/
theorem readFlags_joinList {names : List String} (h : names.Nodup) (hlength : names.length ≤ 63)
    (options : CommandOptions) (field : String) {entries : List (String × ℕ)}
    (hsub : entries ⊆ names.zipIdx) (hentries : ∀ entry ∈ entries, IsEntry entry.1.toList) :
    readFlags options field names (joinList (entries.map fun entry => entry.1.toList))
      = .ok (flagBits entries 0 : ℕ) := by
  have hlist : listEntries (joinList (entries.map fun entry => entry.1.toList))
      = entries.map fun entry => entry.1.toList := by
    refine listEntries_intercalate fun s hs => ?_
    obtain ⟨entry, hentry, rfl⟩ := List.mem_map.mp hs
    exact hentries entry hentry
  rw [readFlags, hlist, foldlM_addFlag h hlength options field hsub]
  rfl

/-- The flags that are set are among the declared ones. -/
theorem setFlags_subset (names : List String) (v : ℤ) : setFlags names v ⊆ names.zipIdx :=
  List.filter_subset_self _

/-- Flags are read back without the bits that have no name. -/
theorem readFlags_renderFlags {names : List String} (h : names.Nodup) (hlength : names.length ≤ 63)
    (hnames : ∀ name ∈ names, IsEntry name.toList) (options : CommandOptions) (field : String)
    {v : ℤ} (hv : 0 ≤ v) :
    readFlags options field names (renderFlags names v) = .ok (v % (2 ^ names.length : ℕ)) := by
  obtain ⟨n, rfl⟩ := Int.eq_ofNat_of_zero_le hv
  have hentries : ∀ entry ∈ setFlags names n, IsEntry entry.1.toList := by
    intro entry hentry
    exact hnames _ (List.fst_mem_of_mem_zipIdx (setFlags_subset names n hentry))
  have hread := readFlags_joinList h hlength options field (setFlags_subset names n) hentries
  rw [flagBits_setFlags] at hread
  exact hread

end WireSchema
