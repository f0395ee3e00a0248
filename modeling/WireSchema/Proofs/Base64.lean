import Mathlib
import WireSchema.Base64

/-!
# Reading base64

The written form of every byte string is read back as that byte string. The induction goes by groups
of three bytes; the last group is padded.
-/

namespace WireSchema.Base64

theorem value?_letter_of_lt {n : ℕ} (h : n < 64) : value? (letter n) = some n :=
  value?_letter ⟨n, h⟩

theorem letter_ne_padding {n : ℕ} (h : n < 64) : letter n ≠ '=' := by
  have hall : ∀ n : Fin 64, letter n ≠ '=' := by decide
  exact hall ⟨n, h⟩

/-! ### One group -/

/-- What has been written stands before what is still to be written. -/
theorem encodeFrom_eq (done : List Char) (s : Bytes) :
    encodeFrom done s = done.reverse ++ encode s := by
  suffices h : ∀ more, encodeFrom (more ++ done) s = done.reverse ++ encodeFrom more s from h []
  intro more
  fun_induction encodeFrom more s with
  | case1 more =>
    rw [encodeFrom, List.reverse_append]
  | case2 more a =>
    rw [encodeFrom, List.reverse_append, List.append_assoc]
  | case3 more a b =>
    rw [encodeFrom, List.reverse_append, List.append_assoc]
  | case4 more a b c rest x y z ih =>
    rw [encodeFrom]
    exact ih

/-- A group of three bytes is four letters. -/
theorem encode_cons (a b c : UInt8) (rest : Bytes) :
    encode (a :: b :: c :: rest)
      = letter (a.toNat / 4) :: letter (a.toNat % 4 * 16 + b.toNat / 16)
        :: letter (b.toNat % 16 * 4 + c.toNat / 64) :: letter (c.toNat % 64) :: encode rest := by
  rw [encode, encodeFrom, encodeFrom_eq]
  rfl

/-- Four letters are read as a group of three bytes. -/
theorem decodeFrom?_group (done : Bytes) (a b c : UInt8) (rest : List Char) :
    decodeFrom? done (letter (a.toNat / 4) :: letter (a.toNat % 4 * 16 + b.toNat / 16)
        :: letter (b.toNat % 16 * 4 + c.toNat / 64) :: letter (c.toNat % 64) :: rest)
      = decodeFrom? (c :: b :: a :: done) rest := by
  have ha := a.toNat_lt
  have hb := b.toNat_lt
  have hc := c.toNat_lt
  have hlast : ¬(letter (c.toNat % 64) = '=' ∧ rest = []) :=
    fun h => letter_ne_padding (Nat.mod_lt _ (by decide)) h.1
  rw [decodeFrom?, if_neg hlast, value?_letter_of_lt (by omega), value?_letter_of_lt (by omega),
    value?_letter_of_lt (by omega), value?_letter_of_lt (Nat.mod_lt _ (by decide))]
  simp only
  rw [(UInt8.ofNat_eq_iff_mod_eq_toNat _ c).mpr (by omega),
    (UInt8.ofNat_eq_iff_mod_eq_toNat _ b).mpr (by omega),
    (UInt8.ofNat_eq_iff_mod_eq_toNat _ a).mpr (by omega)]

/-- A last group of one byte. -/
theorem decodePadded_one (a : UInt8) :
    decodePadded (letter (a.toNat / 4)) (letter (a.toNat % 4 * 16)) '=' = some [a] := by
  have ha := a.toNat_lt
  rw [decodePadded, value?_letter_of_lt (by omega), value?_letter_of_lt (by omega)]
  simp only [if_true]
  rw [if_pos (by omega), (UInt8.ofNat_eq_iff_mod_eq_toNat _ a).mpr (by omega)]

/-- A last group of two bytes. -/
theorem decodePadded_two (a b : UInt8) :
    decodePadded (letter (a.toNat / 4)) (letter (a.toNat % 4 * 16 + b.toNat / 16))
      (letter (b.toNat % 16 * 4)) = some [a, b] := by
  have ha := a.toNat_lt
  have hb := b.toNat_lt
  rw [decodePadded, value?_letter_of_lt (by omega), value?_letter_of_lt (by omega),
    value?_letter_of_lt (by omega)]
  simp only [if_neg (letter_ne_padding (show b.toNat % 16 * 4 < 64 by omega))]
  rw [if_pos (by omega), (UInt8.ofNat_eq_iff_mod_eq_toNat _ a).mpr (by omega),
    (UInt8.ofNat_eq_iff_mod_eq_toNat _ b).mpr (by omega)]

/-! ### All groups -/

theorem decodeFrom?_encode :
    ∀ (s done : Bytes), decodeFrom? done (encode s) = some (done.reverse ++ s)
  | [], done => by
    rw [List.append_nil]
    rfl
  | [a], done => by
    show decodeFrom? done [letter (a.toNat / 4), letter (a.toNat % 4 * 16), '=', '='] = _
    rw [decodeFrom?, if_pos ⟨rfl, rfl⟩, decodePadded_one]
    rfl
  | [a, b], done => by
    show decodeFrom? done [letter (a.toNat / 4), letter (a.toNat % 4 * 16 + b.toNat / 16),
      letter (b.toNat % 16 * 4), '='] = _
    rw [decodeFrom?, if_pos ⟨rfl, rfl⟩, decodePadded_two]
    rfl
  | a :: b :: c :: rest, done => by
    rw [encode_cons, decodeFrom?_group, decodeFrom?_encode rest, List.reverse_cons,
      List.reverse_cons, List.reverse_cons]
    simp only [List.append_assoc, List.cons_append, List.nil_append]

/-- Reading undoes writing. -/
theorem decode?_encode (s : Bytes) : decode? (encode s) = some s :=
  decodeFrom?_encode s []

end WireSchema.Base64
