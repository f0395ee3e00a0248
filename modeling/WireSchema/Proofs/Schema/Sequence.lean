import Mathlib
import WireSchema.Proofs.Schema.Field

/-!
# Declared sequences in 64 bits

The bounds of a declared sequence are computed from what it declares, which can be any numbers of 64
bits: the room is divided, numbers of elements are multiplied again, and a count is added. Here is
the same computation where each of these operations has to give a number of 64 bits. Only the least
length can fail to be one, and this is reported as a fault of the declaration.

* `Unsigned64` — operations that stop at an overflow;
* `FieldDecl.sequenceField64`, `FieldDecl.sequenceField64_eq` — a declared sequence does not stop
  them;
* `Field.ofDecl_sequence_iff` — which declared sequences are accepted, and their bounds.
-/

namespace WireSchema

/-! ### Numbers of 64 bits -/

namespace Unsigned64

/-- A number if it has 64 bits, and nothing where an operation overflows. -/
def within (n : ℕ) : Option ℕ :=
  if n < 2 ^ 64 then some n else none

/-- The sum of two numbers. -/
def add (n m : ℕ) : Option ℕ :=
  within (n + m)

/-- The product of two numbers. -/
def mul (n m : ℕ) : Option ℕ :=
  within (n * m)

/-- The difference of two numbers, which is not below zero. -/
def sub (n m : ℕ) : Option ℕ :=
  if m ≤ n then some (n - m) else none

/-- The quotient of two numbers, the second of which is not zero. -/
def div (n m : ℕ) : Option ℕ :=
  if m = 0 then none else some (n / m)

/-- A number shifted by fewer than 64 bits, none of which is lost. -/
def shiftLeft (n k : ℕ) : Option ℕ :=
  if k < 64 then within (n <<< k) else none

theorem within_of_lt {n : ℕ} (h : n < 2 ^ 64) : within n = some n :=
  if_pos h

theorem sub_of_le {n m : ℕ} (h : m ≤ n) : sub n m = some (n - m) :=
  if_pos h

theorem div_of_pos (n : ℕ) {m : ℕ} (h : 0 < m) : div n m = some (n / m) :=
  if_neg (Nat.ne_of_gt h)

/-- The largest number that a count can express. -/
def maxCount (t : CountType) : Option ℕ := do
  let capacity ← shiftLeft 1 (8 * t.width.bytes)
  sub capacity 1

theorem maxCount_eq (t : CountType) : maxCount t = some t.maxCount := by
  cases t <;> rfl

/-- The least length of a sequence. Its two operations are the only ones that can overflow. -/
def minLen (b : SequenceBounds) : Option ℕ := do
  let content ← mul (b.declaredMin.getD 0) b.elementSize
  add content b.countWidth

/-- The greatest length of a sequence. -/
def maxLen (b : SequenceBounds) : Option ℕ :=
  match b.count with
  | none => do
    let whole ← div b.room b.elementSize
    mul (b.limited whole) b.elementSize
  | some t =>
    if b.room < t.width.bytes then some b.room
    else do
      let expressible ← maxCount t
      let left ← sub b.room t.width.bytes
      let whole ← div left b.elementSize
      let content ← mul (b.limited (min expressible whole)) b.elementSize
      add t.width.bytes content

theorem minLen_eq (b : SequenceBounds) : minLen b = b.minLen? := by
  simp only [minLen, SequenceBounds.minLen?, mul, add, within]
  show (if b.declaredMin.getD 0 * b.elementSize < 0x10000000000000000 then _ else none).bind _ = _
  by_cases hcontent : b.declaredMin.getD 0 * b.elementSize < 0x10000000000000000
  · rw [if_pos hcontent]
    simp only [hcontent, true_and, Option.bind_some]
    rfl
  · rw [if_neg hcontent]
    simp only [hcontent, false_and, if_false, Option.bind_none]

/-- The greatest length is computed without an overflow. -/
theorem maxLen_eq {b : SequenceBounds} (hsize : 0 < b.elementSize) (hword : b.room < 2 ^ 64) :
    maxLen b = some b.maxLen := by
  have hmax := SequenceBounds.maxLen_le_room hsize
  unfold maxLen SequenceBounds.maxLen at *
  cases hcount : b.count with
  | none =>
    simp only [hcount] at hmax ⊢
    rw [div_of_pos _ hsize]
    exact within_of_lt (Nat.lt_of_le_of_lt hmax hword)
  | some t =>
    simp only [hcount] at hmax ⊢
    by_cases hroom : b.room < t.width.bytes
    · rw [if_pos hroom, if_pos hroom]
    · rw [if_neg hroom] at hmax ⊢
      rw [if_neg hroom, maxCount_eq, sub_of_le (Nat.not_lt.mp hroom)]
      show (div (b.room - t.width.bytes) b.elementSize).bind _ = _
      rw [div_of_pos _ hsize]
      show (within _).bind _ = _
      rw [within_of_lt (by omega)]
      exact within_of_lt (by omega)

end Unsigned64

/-! ### Declared sequences -/

namespace FieldDecl

/-- A declared sequence, computed in 64 bits: nothing where an operation overflows that is not
checked. -/
def sequenceField64 (d : FieldDecl) (name : String) (type : SeqType) (isLast : Bool)
    (prevMin : ℕ) : Option (Except SchemaError Field) :=
  match d.sequenceFormat name type, d.countType name isLast with
  | .error e, _ => some (.error e)
  | .ok _, .error e => some (.error e)
  | .ok format, .ok count => do
    let bounds := d.sequenceBounds type count prevMin
    let maxLen ← Unsigned64.maxLen bounds
    match Unsigned64.minLen bounds with
    | none => some (.error (.invalidAttribute name "min_len" .lengthTooLarge))
    | some minLen =>
      if maxLen < minLen then some (.error (.maxBelowMin name minLen maxLen))
      else some (.ok ⟨name, minLen, maxLen, .sequence type count format⟩)

/-- No operation on the way to the field of a sequence overflows, whatever is declared. -/
theorem sequenceField64_eq (d : FieldDecl) (name : String) (type : SeqType) (isLast : Bool)
    (prevMin : ℕ) :
    d.sequenceField64 name type isLast prevMin
      = some (d.sequenceField name type isLast prevMin) := by
  cases hformat : d.sequenceFormat name type with
  | error e => simp only [sequenceField64, sequenceField, hformat, bind, Except.bind]
  | ok format =>
    cases hcount : d.countType name isLast with
    | error e => simp only [sequenceField64, sequenceField, hformat, hcount, bind, Except.bind]
    | ok count =>
      have hmax : Unsigned64.maxLen (d.sequenceBounds type count prevMin) = _ :=
        Unsigned64.maxLen_eq type.elementSize_pos (d.room_lt type count prevMin)
      rw [sequenceField_of_valid hformat hcount]
      simp only [sequenceField64, hformat, hcount, hmax, Unsigned64.minLen_eq, bind,
        Option.bind_some]
      cases (d.sequenceBounds type count prevMin).minLen? with
      | none => rfl
      | some minLen => exact (apply_ite some _ _ _).symm

end FieldDecl

namespace Field

/-- The field of a declared sequence whose format and count type are valid. It exists just if there
is a greatest number of elements that the room, the count and the declared maximum allow, and the
declared minimum is not above it; its bounds are the lengths of these two numbers. No operation of
the computation overflows in 64 bits, whatever is declared. -/
theorem ofDecl_sequence_iff {d : FieldDecl} {name keyword : String} {type : SeqType}
    {format : Format} {count : Option CountType} {isLast : Bool} {prevMin prevMax : ℕ}
    (hname : d.nameAndType = .ok (name, keyword))
    (htype : Keyword.ofName? keyword = some (.sequence type))
    (hformat : d.sequenceFormat name type = .ok format)
    (hcount : d.countType name isLast = .ok count) :
    (count = none ↔ isLast = true) ∧
      (∀ f, ofDecl d isLast prevMin prevMax = .ok f ↔
        ∃ most, IsGreatest {k | (d.sequenceBounds type count prevMin).Allows k} most ∧
          d.attributes.minLen.getD 0 ≤ most ∧
          f = ⟨name, countBytes count + d.attributes.minLen.getD 0 * type.elementSize,
            countBytes count + most * type.elementSize, .sequence type count format⟩) ∧
      d.sequenceField64 name type isLast prevMin = some (ofDecl d isLast prevMin prevMax) := by
  have hdecl : ofDecl d isLast prevMin prevMax = d.sequenceField name type isLast prevMin := by
    simp only [ofDecl, hname, bind, Except.bind, htype]
  refine ⟨FieldDecl.countType_eq_none_iff hcount, fun f => ?_, ?_⟩
  · rw [hdecl]
    exact FieldDecl.sequenceField_iff hformat hcount
  · rw [hdecl]
    exact d.sequenceField64_eq name type isLast prevMin

/-- Between three and three hundred words with a count of two bytes. -/
def stepsDecl : FieldDecl :=
  .long "steps vec_u16" (some (.format "hex"))
    { minLen := some 3, maxLen := some 300, countType := some "u16" }

/-- Behind 65000 bytes there is room for 266 words and one byte more. -/
theorem ofDecl_sequence_iff_steps :
    stepsDecl.nameAndType = .ok ("steps", "vec_u16") ∧
      ofDecl stepsDecl false 65000 65100
        = .ok ⟨"steps", 8, 534, .sequence .vecU16 (some .u16) .hex⟩ := by
  have hname : stepsDecl.nameAndType = .ok ("steps", "vec_u16") := by cbv
  have htype : Keyword.ofName? "vec_u16" = some (.sequence .vecU16) := by decide
  have hformat : stepsDecl.sequenceFormat "steps" .vecU16 = .ok .hex := by cbv
  have hcount : stepsDecl.countType "steps" false = .ok (some .u16) := by cbv
  have hmost :
      IsGreatest {k | (stepsDecl.sequenceBounds .vecU16 (some .u16) 65000).Allows k} 266 := by
    refine ⟨⟨by decide, ?_, ?_⟩, fun k hk => ?_⟩
    · rintro most hmost
      cases hmost
      decide
    · rintro t ht
      cases ht
      decide
    · have hfits : 2 + k * 2 ≤ 535 := hk.fits
      omega
  have hfield : ∀ f, ofDecl stepsDecl false 65000 65100 = .ok f ↔ _ :=
    (ofDecl_sequence_iff hname htype hformat hcount).2.1
  exact ⟨hname, (hfield _).mpr ⟨266, hmost, by decide, rfl⟩⟩

end Field

end WireSchema
