import Mathlib
import WireSchema.Schema.Field

/-!
# The length algebra of sequences

A sequence may have so many elements as fit the room in a payload together with their count, as the
count can express, and as the declared maximum allows. Its greatest length is that of the greatest
such number, and it is refused where there is none or where the declared minimum is above it.

* `SequenceBounds.Allows` — the numbers of elements that a sequence may have;
* `SequenceBounds.isGreatest_most`, `SequenceBounds.maxLen_of_isGreatest` — the greatest of them,
  and the greatest length;
* `SequenceBounds.bounds_iff` — the bounds of a sequence, and when there are none.
-/

namespace WireSchema

/-- The bytes that a count takes; there are none where none is stored. -/
def countBytes : Option CountType → Nat
  | some t => t.width.bytes
  | none => 0

theorem CountType.le_maxCount_iff (t : CountType) (k : ℕ) :
    k ≤ t.maxCount ↔ k < 2 ^ (8 * t.width.bytes) := by
  cases t
  · show k ≤ 255 ↔ k < 256
    omega
  · show k ≤ 65535 ↔ k < 65536
    omega

/-! ### The greatest number of elements -/

namespace SequenceBounds

/-- A sequence may have so many elements: they fit the room together with their count, the declared
maximum allows them, and the count can express their number. -/
structure Allows (b : SequenceBounds) (k : ℕ) : Prop where
  fits : countBytes b.count + k * b.elementSize ≤ b.room
  declared : ∀ most, b.declaredMax = some most → k ≤ most
  expressible : ∀ t, b.count = some t → k < 2 ^ (8 * t.width.bytes)

/-- The greatest number of elements, where the count fits the room. -/
def most (b : SequenceBounds) : ℕ :=
  let whole := (b.room - countBytes b.count) / b.elementSize
  match b.count with
  | none => b.limited whole
  | some t => b.limited (min t.maxCount whole)

variable {b : SequenceBounds}

theorem countWidth_eq (b : SequenceBounds) : b.countWidth = countBytes b.count := by
  unfold countWidth countBytes
  cases b.count <;> rfl

theorem le_limited_iff {k n : ℕ} :
    k ≤ b.limited n ↔ k ≤ n ∧ ∀ most, b.declaredMax = some most → k ≤ most := by
  unfold limited
  cases b.declaredMax with
  | none => simp
  | some most => simp

/-- Where the count fits the room, the numbers of elements that are allowed are those up to the
greatest one. -/
theorem allows_iff (hsize : 0 < b.elementSize) (hroom : countBytes b.count ≤ b.room) {k : ℕ} :
    b.Allows k ↔ k ≤ b.most := by
  have hfits : countBytes b.count + k * b.elementSize ≤ b.room ↔
      k ≤ (b.room - countBytes b.count) / b.elementSize := by
    rw [Nat.le_div_iff_mul_le hsize]
    omega
  unfold most
  constructor
  · intro h
    have hwhole := hfits.mp h.fits
    cases hcount : b.count with
    | none =>
      rw [hcount] at hwhole
      exact le_limited_iff.mpr ⟨hwhole, h.declared⟩
    | some t =>
      rw [hcount] at hwhole
      have hmost := (t.le_maxCount_iff k).mpr (h.expressible t hcount)
      exact le_limited_iff.mpr ⟨Nat.le_min.mpr ⟨hmost, hwhole⟩, h.declared⟩
  · intro h
    cases hcount : b.count with
    | none =>
      simp only [hcount] at h
      obtain ⟨hwhole, hdeclared⟩ := le_limited_iff.mp h
      exact ⟨hfits.mpr (hcount ▸ hwhole), hdeclared, by simp [hcount]⟩
    | some t =>
      simp only [hcount] at h
      obtain ⟨hmin, hdeclared⟩ := le_limited_iff.mp h
      obtain ⟨hmost, hwhole⟩ := Nat.le_min.mp hmin
      refine ⟨hfits.mpr (hcount ▸ hwhole), hdeclared, fun u hu => ?_⟩
      cases hcount.symm.trans hu
      exact (t.le_maxCount_iff k).mp hmost

theorem isGreatest_most (hsize : 0 < b.elementSize) (hroom : countBytes b.count ≤ b.room) :
    IsGreatest {k | b.Allows k} b.most :=
  ⟨(allows_iff hsize hroom).mpr (Nat.le_refl _), fun _ hk => (allows_iff hsize hroom).mp hk⟩

/-- The greatest length is that of the greatest number of elements. -/
theorem maxLen_of_isGreatest (hsize : 0 < b.elementSize) {most : ℕ}
    (h : IsGreatest {k | b.Allows k} most) :
    b.maxLen = countBytes b.count + most * b.elementSize := by
  have hroom : countBytes b.count ≤ b.room := Nat.le_trans (Nat.le_add_right _ _) h.1.fits
  rw [h.unique (isGreatest_most hsize hroom)]
  unfold maxLen SequenceBounds.most
  cases hcount : b.count with
  | none =>
    show _ = 0 + b.limited ((b.room - 0) / b.elementSize) * b.elementSize
    rw [Nat.zero_add, Nat.sub_zero]
  | some t =>
    rw [hcount] at hroom
    exact if_neg (Nat.not_lt.mpr hroom)

/-- Without room for the count, the greatest length is below that of the count. -/
theorem maxLen_of_not_fits (hroom : b.room < countBytes b.count) : b.maxLen = b.room := by
  unfold maxLen
  cases hcount : b.count with
  | none =>
    rw [hcount] at hroom
    exact absurd hroom (Nat.not_lt_zero _)
  | some t =>
    rw [hcount] at hroom
    exact if_pos hroom

/-- The greatest length never exceeds the room. -/
theorem maxLen_le_room (hsize : 0 < b.elementSize) : b.maxLen ≤ b.room := by
  by_cases hroom : countBytes b.count ≤ b.room
  · have hmost := isGreatest_most hsize hroom
    rw [maxLen_of_isGreatest hsize hmost]
    exact hmost.1.fits
  · exact (maxLen_of_not_fits (Nat.not_le.mp hroom)).le

/-- The least length is the declared one, with the count. -/
theorem minLen?_eq_some {n : ℕ} (h : b.minLen? = some n) :
    n = countBytes b.count + b.declaredMin.getD 0 * b.elementSize := by
  simp only [minLen?, countWidth_eq] at h
  split at h
  · rw [← Option.some.inj h, Nat.add_comm]
  · cases h

/-- A sequence has bounds just if there is a greatest number of elements which is not below the
declared minimum. -/
theorem bounds_iff (hsize : 0 < b.elementSize) (hword : b.room < 2 ^ 64) (least : ℕ) :
    b.minLen? = some least ∧ least ≤ b.maxLen ↔
      ∃ most, IsGreatest {k | b.Allows k} most ∧ b.declaredMin.getD 0 ≤ most ∧
        least = countBytes b.count + b.declaredMin.getD 0 * b.elementSize := by
  constructor
  · rintro ⟨hmin, hle⟩
    have hleast := minLen?_eq_some hmin
    have hroom : countBytes b.count ≤ b.room := by
      by_contra hnot
      have hmax := maxLen_of_not_fits (Nat.not_le.mp hnot)
      omega
    have hmost := isGreatest_most hsize hroom
    have hmax := maxLen_of_isGreatest hsize hmost
    have hcontent : b.declaredMin.getD 0 * b.elementSize ≤ b.most * b.elementSize := by omega
    exact ⟨b.most, hmost, Nat.le_of_mul_le_mul_right hcontent hsize, hleast⟩
  · rintro ⟨most, hmost, hle, rfl⟩
    have hmax := maxLen_of_isGreatest hsize hmost
    have hfits := hmost.1.fits
    have hcontent : b.declaredMin.getD 0 * b.elementSize ≤ most * b.elementSize :=
      Nat.mul_le_mul_right _ hle
    refine ⟨?_, by omega⟩
    simp only [minLen?, countWidth_eq]
    rw [if_pos ⟨by omega, by omega⟩, Nat.add_comm]

end SequenceBounds

end WireSchema
