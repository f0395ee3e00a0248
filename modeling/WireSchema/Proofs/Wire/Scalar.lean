import Mathlib
import WireSchema.Proofs.Results
import WireSchema.Wire.Field

/-!
# Numbers and words on the wire

Reading a number gives back what was written, for every number that its kind can store, and what is
read can be stored. The same for words of 16 bits.

* `ByteWidth.get?_eq_some` — the bytes that a number was read from are the ones that are written for
  it;
* `ScalarKind.ofBits_toBits`, `ScalarKind.holds_ofBits` — stored bits and numbers;
* `ScalarKind.read_write_append`, `ScalarKind.read_eq_ok` — reading;
* `wordsOfBytes_bytesOfWords`, `bytesOfWords_wordsOfBytes` — words.
-/

namespace WireSchema

/-! ### Bytes of a number -/

namespace ByteWidth

theorem capacity_pos (w : ByteWidth) : 0 < w.capacity := by
  cases w <;> decide

theorem capacity_le (w : ByteWidth) : w.capacity ≤ 0x100000000 := by
  cases w <;> decide

theorem capacity_eq (w : ByteWidth) : w.capacity = 2 ^ (8 * w.bytes) := by
  cases w <;> rfl

/-- A number that was read is within the width, and its bytes are the ones that are written. -/
theorem get?_eq_some {w : ByteWidth} {s rest : Bytes} {n : Nat} (h : w.get? s = some (n, rest)) :
    n < w.capacity ∧ s = w.put n ++ rest := by
  unfold get? at h
  split at h
  · rename_i a rest'
    cases h
    have ha := a.toNat_lt
    refine ⟨ha, ?_⟩
    show _ = UInt8.ofNat a.toNat :: rest
    rw [UInt8.ofNat_toNat]
  · rename_i a b rest'
    cases h
    have ha := a.toNat_lt
    have hb := b.toNat_lt
    refine ⟨?_, ?_⟩
    · show _ < 0x10000
      omega
    · show _ = UInt8.ofNat ((a.toNat * 0x100 + b.toNat) / 0x100)
        :: UInt8.ofNat (a.toNat * 0x100 + b.toNat) :: rest
      rw [(UInt8.ofNat_eq_iff_mod_eq_toNat _ a).mpr (by omega),
        (UInt8.ofNat_eq_iff_mod_eq_toNat _ b).mpr (by omega)]
  · rename_i a b c d rest'
    cases h
    have ha := a.toNat_lt
    have hb := b.toNat_lt
    have hc := c.toNat_lt
    have hd := d.toNat_lt
    generalize hn : a.toNat * 0x1000000 + b.toNat * 0x10000 + c.toNat * 0x100 + d.toNat = n
    refine ⟨?_, ?_⟩
    · show _ < 0x100000000
      omega
    · show _ = UInt8.ofNat (n / 0x1000000) :: UInt8.ofNat (n / 0x10000) :: UInt8.ofNat (n / 0x100)
        :: UInt8.ofNat n :: rest
      rw [(UInt8.ofNat_eq_iff_mod_eq_toNat _ a).mpr (by omega),
        (UInt8.ofNat_eq_iff_mod_eq_toNat _ b).mpr (by omega),
        (UInt8.ofNat_eq_iff_mod_eq_toNat _ c).mpr (by omega),
        (UInt8.ofNat_eq_iff_mod_eq_toNat _ d).mpr (by omega)]
  · cases h

end ByteWidth

/-! ### Stored bits -/

/-- The numbers of truth values. -/
theorem IntType.eq_zero_or_one {n : Int} (h : IntType.bool.contains n = true) : n = 0 ∨ n = 1 := by
  rw [IntType.contains_iff] at h
  have hlow : (0 : Int) ≤ n := h.1
  have hhigh : n ≤ 1 := h.2
  omega

namespace ScalarKind

/-- Flags are any combination of the bits of their width. -/
theorem holds_flags_iff {names : List String} {width : ByteWidth} {v : Int} :
    (flags names width).holds v = true ↔ 0 ≤ v ∧ v < width.capacity := by
  show (decide (0 ≤ v) && decide (v < width.capacity)) = true ↔ _
  rw [Bool.and_eq_true, decide_eq_true_eq, decide_eq_true_eq]

theorem toBits_lt (kind : ScalarKind) (v : Int) : kind.toBits v < kind.width.capacity := by
  have hpos := kind.width.capacity_pos
  have hlt := Int.emod_lt_of_pos v (Int.natCast_pos.mpr hpos)
  have hnonneg := Int.emod_nonneg v (Int.natCast_ne_zero.mpr (Nat.pos_iff_ne_zero.mp hpos))
  unfold toBits
  omega

/-- The stored bits of a number stand for it. -/
theorem ofBits_toBits {kind : ScalarKind} {v : Int} (h : kind.holds v = true) :
    kind.ofBits (kind.toBits v) = v := by
  cases kind with
  | integer type format =>
    cases type <;>
      simp only [holds, IntType.contains, IntType.least, IntType.greatest, IntType.isSigned,
        IntType.width, ByteWidth.capacity, ofBits, toBits, width, Bool.and_eq_true,
        decide_eq_true_eq, reduceCtorEq, if_true, if_false, true_and, false_and,
        Bool.false_eq_true] at h ⊢ <;> omega
  | flags names w =>
    rw [holds_flags_iff] at h
    simp only [ofBits, toBits, width]
    rw [Int.emod_eq_of_lt h.1 h.2, Int.toNat_of_nonneg h.1]

/-- Stored bits stand for a number that can be stored. -/
theorem holds_ofBits {kind : ScalarKind} {n : Nat} (h : n < kind.width.capacity) :
    kind.holds (kind.ofBits n) = true := by
  cases kind with
  | integer type format =>
    cases type <;>
      simp only [holds, IntType.contains, IntType.least, IntType.greatest, IntType.isSigned,
        IntType.width, ByteWidth.capacity, ofBits, width, Bool.and_eq_true,
        decide_eq_true_eq, reduceCtorEq, if_true, if_false, true_and, false_and,
        Bool.false_eq_true] at h ⊢ <;> omega
  | flags names w =>
    exact Bool.and_eq_true_iff.mpr
      ⟨decide_eq_true (Int.natCast_nonneg n), decide_eq_true (Int.ofNat_lt.mpr h)⟩

/-! ### Reading and writing -/

theorem write_eq_ok {kind : ScalarKind} {name : String} {v : Int} {s : Bytes}
    (h : kind.write name v = .ok s) : kind.holds v = true ∧ s = kind.width.put (kind.toBits v) := by
  obtain ⟨hholds, hbytes⟩ := ite_eq_ok.mp h
  exact ⟨hholds, hbytes.symm⟩

/-- A number is read back as it was written, whatever follows it. -/
theorem read_write_append {kind : ScalarKind} {name : String} {v : Int} {s : Bytes}
    (h : kind.write name v = .ok s) (rest : Bytes) : kind.read (s ++ rest) = .ok (v, rest) := by
  obtain ⟨hholds, rfl⟩ := write_eq_ok h
  rw [read, ByteWidth.get?_put_append, Nat.mod_eq_of_lt (toBits_lt kind v)]
  simp only [ofBits_toBits hholds]

/-- A number that was read can be stored, and took the bytes of its width. -/
theorem read_eq_ok {kind : ScalarKind} {v : Int} {s rest : Bytes}
    (h : kind.read s = .ok (v, rest)) :
    kind.holds v = true ∧ ∃ part, s = part ++ rest ∧ part.length = kind.width.bytes := by
  unfold read at h
  split at h
  · rename_i n rest' hget
    cases h
    obtain ⟨hlt, hs⟩ := ByteWidth.get?_eq_some hget
    exact ⟨holds_ofBits hlt, kind.width.put n, hs, ByteWidth.length_put _ _⟩
  · cases h

end ScalarKind

/-! ### Words -/

theorem length_bytesOfWord (w : UInt16) : (bytesOfWord w).length = 2 :=
  ByteWidth.length_put _ _

theorem length_bytesOfWords (list : List UInt16) :
    (list.flatMap bytesOfWord).length = list.length * 2 := by
  induction list with
  | nil => rfl
  | cons w list ih =>
    rw [List.flatMap_cons, List.length_append, length_bytesOfWord, ih, List.length_cons]
    omega

/-- The bytes of the word that two bytes make are these two. -/
theorem bytesOfWord_ofNat (high low : UInt8) :
    bytesOfWord (UInt16.ofNat (high.toNat * 0x100 + low.toNat)) = [high, low] := by
  have hhigh := high.toNat_lt
  have hlow := low.toNat_lt
  have hword : (UInt16.ofNat (high.toNat * 0x100 + low.toNat)).toNat
      = high.toNat * 0x100 + low.toNat := by
    rw [UInt16.toNat_ofNat']
    omega
  rw [bytesOfWord, hword]
  show [UInt8.ofNat ((high.toNat * 0x100 + low.toNat) / 0x100),
    UInt8.ofNat (high.toNat * 0x100 + low.toNat)] = _
  have hdiv : (high.toNat * 0x100 + low.toNat) / 0x100 = high.toNat := by omega
  have hmod : UInt8.ofNat (high.toNat * 0x100 + low.toNat) = low := by
    rw [← UInt8.toNat_inj, UInt8.toNat_ofNat']
    omega
  rw [hdiv, UInt8.ofNat_toNat, hmod]

/-- Words are read back as they were written. -/
theorem wordsOfBytes_bytesOfWords (list : List UInt16) :
    wordsOfBytes (list.flatMap bytesOfWord) = list := by
  induction list with
  | nil => rfl
  | cons w list ih =>
    have hw := w.toNat_lt
    have hword : (UInt8.ofNat (w.toNat / 0x100)).toNat * 0x100 + (UInt8.ofNat w.toNat).toNat
        = w.toNat := by
      simp only [UInt8.toNat_ofNat']
      omega
    show UInt16.ofNat ((UInt8.ofNat (w.toNat / 0x100)).toNat * 0x100
      + (UInt8.ofNat w.toNat).toNat) :: wordsOfBytes (list.flatMap bytesOfWord) = _
    rw [hword, UInt16.ofNat_toNat, ih]

/-- The words of whole elements are written as the bytes that they were read from. -/
theorem bytesOfWords_wordsOfBytes {s : Bytes} (h : 2 ∣ s.length) :
    (wordsOfBytes s).flatMap bytesOfWord = s := by
  fun_induction wordsOfBytes s with
  | case1 high low rest ih =>
    rw [List.length_cons, List.length_cons] at h
    rw [List.flatMap_cons, bytesOfWord_ofNat, ih (by omega)]
    rfl
  | case2 s hs =>
    match s, hs with
    | [], _ => rfl
    | [b], _ =>
      rw [List.length_singleton] at h
      omega
    | a :: b :: rest, hs => exact (hs a b rest rfl).elim

end WireSchema
