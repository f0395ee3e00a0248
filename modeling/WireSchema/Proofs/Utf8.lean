import Mathlib
import WireSchema.Utf8

/-!
# Reading UTF-8 after writing it

The bytes of a character are read back as that character, whatever follows them, so the bytes of a
text are read back as the text: by the strict reader, and by the lossy one without any replacement.

* `Utf8.next_encodeChar` — one character;
* `Utf8.decodeLossy_encode`, `Utf8.decode?_encode` — a text;
* `Utf8.lineFeed_not_mem_encode` — where lines end;
* `Utf8.WellFormed` — the byte strings that are the bytes of a text.
-/

namespace WireSchema.Utf8

/-! ### One character -/

/-- Scalar values leave out the surrogates and end at `10ffff`. -/
theorem toNat_range (c : Char) : c.toNat < 0xd800 ∨ 0xdfff < c.toNat ∧ c.toNat < 0x110000 :=
  c.valid

theorem next_of_one {lead : UInt8} (rest : Bytes) (h : lead.toNat < 0x80) :
    next lead rest = (some (Char.ofNat lead.toNat), rest) := by
  have hlead : announcedLength lead = some 1 := by
    simp only [announcedLength, UInt8.lt_iff_toNat_lt]
    exact if_pos h
  simp only [next, hlead]

theorem next_of_two {lead a : UInt8} (rest : Bytes) (h : 0xc2 ≤ lead.toNat ∧ lead.toNat ≤ 0xdf)
    (ha : isContinuation a = true) :
    next lead (a :: rest)
      = (some (Char.ofNat (lead.toNat % 0x20 * 0x40 + low6 a)), rest) := by
  have hlead : announcedLength lead = some 2 := by
    have hone : ¬lead.toNat < 0x80 := by omega
    simp [announcedLength, UInt8.lt_iff_toNat_lt, UInt8.le_iff_toNat_le, hone, h]
  simp only [next, hlead, ha, if_true]

theorem next_of_three {lead a b : UInt8} (rest : Bytes)
    (h : 0xe0 ≤ lead.toNat ∧ lead.toNat ≤ 0xef)
    (ha : isSecond lead a = true) (hb : isContinuation b = true) :
    next lead (a :: b :: rest)
      = (some (Char.ofNat (lead.toNat % 0x10 * 0x1000 + low6 a * 0x40 + low6 b)), rest) := by
  have hlead : announcedLength lead = some 3 := by
    have hone : ¬lead.toNat < 0x80 := by omega
    have htwo : ¬lead.toNat ≤ 0xdf := by omega
    simp [announcedLength, UInt8.lt_iff_toNat_lt, UInt8.le_iff_toNat_le, hone, htwo, h]
  simp only [next, hlead, ha, hb, if_true]

theorem next_of_four {lead a b d : UInt8} (rest : Bytes)
    (h : 0xf0 ≤ lead.toNat ∧ lead.toNat ≤ 0xf4)
    (ha : isSecond lead a = true) (hb : isContinuation b = true) (hd : isContinuation d = true) :
    next lead (a :: b :: d :: rest)
      = (some (Char.ofNat
          (lead.toNat % 0x8 * 0x40000 + low6 a * 0x1000 + low6 b * 0x40 + low6 d)), rest) := by
  have hlead : announcedLength lead = some 4 := by
    have hone : ¬lead.toNat < 0x80 := by omega
    have htwo : ¬lead.toNat ≤ 0xdf := by omega
    have hthree : ¬lead.toNat ≤ 0xef := by omega
    simp [announcedLength, UInt8.lt_iff_toNat_lt, UInt8.le_iff_toNat_le, hone, htwo, hthree, h]
  simp only [next, hlead, ha, hb, hd, if_true]

/-- A byte made of `80` and six bits continues a character. -/
theorem isContinuation_ofNat {n : Nat} (h : n < 0x40) :
    isContinuation (UInt8.ofNat (0x80 + n)) = true := by
  simp only [isContinuation, UInt8.le_iff_toNat_le, UInt8.toNat_ofNat', Bool.and_eq_true,
    decide_eq_true_eq]
  constructor
  · show 0x80 ≤ _
    omega
  · show _ ≤ 0xbf
    omega

theorem low6_ofNat {n : Nat} (h : n < 0x40) : low6 (UInt8.ofNat (0x80 + n)) = n := by
  simp only [low6, UInt8.toNat_ofNat']
  omega

theorem toNat_ofNat_byte {n : Nat} (h : n < 0x100) : (UInt8.ofNat n).toNat = n := by
  rw [UInt8.toNat_ofNat']
  omega

/-- The second byte of a character in its shortest form, which is no surrogate, is accepted. -/
theorem isSecond_ofNat {l n : Nat} (hl : l < 0x100) (hn : n < 0x40)
    (he0 : l = 0xe0 → 0x20 ≤ n) (hed : l = 0xed → n < 0x20) (hf0 : l = 0xf0 → 0x10 ≤ n)
    (hf4 : l = 0xf4 → n < 0x10) :
    isSecond (UInt8.ofNat l) (UInt8.ofNat (0x80 + n)) = true := by
  have hb : (UInt8.ofNat (0x80 + n)).toNat = 0x80 + n := toNat_ofNat_byte (by omega)
  have hlead (k : UInt8) : UInt8.ofNat l = k ↔ l = k.toNat := by
    rw [← UInt8.toNat_inj, toNat_ofNat_byte hl]
  simp only [isSecond, hlead, isContinuation_ofNat hn, UInt8.le_iff_toNat_le, hb]
  simp only [UInt8.reduceToNat]
  split
  · have := he0 ‹_›
    simp; omega
  split
  · have := hed ‹_›
    simp; omega
  split
  · have := hf0 ‹_›
    simp; omega
  split
  · have := hf4 ‹_›
    simp; omega
  · rfl

/-- The bytes of a character are read back as the character and leave what follows. -/
theorem next_encodeChar (c : Char) :
    ∃ lead tail, encodeChar c = lead :: tail ∧
      ∀ rest, next lead (tail ++ rest) = (some c, rest) := by
  have hrange := toNat_range c
  simp only [encodeChar]
  split
  · refine ⟨_, _, rfl, fun rest => ?_⟩
    rw [List.nil_append, next_of_one _ (by rw [toNat_ofNat_byte] <;> omega),
      toNat_ofNat_byte (by omega), Char.ofNat_toNat]
  split
  · refine ⟨_, _, rfl, fun rest => ?_⟩
    have hlead : (UInt8.ofNat (0xc0 + c.toNat / 0x40)).toNat = 0xc0 + c.toNat / 0x40 :=
      toNat_ofNat_byte (by omega)
    rw [List.cons_append, List.nil_append,
      next_of_two _ (by omega) (isContinuation_ofNat (by omega)), low6_ofNat (by omega), hlead,
      show (0xc0 + c.toNat / 0x40) % 0x20 * 0x40 + c.toNat % 0x40 = c.toNat from by omega,
      Char.ofNat_toNat]
  split
  · refine ⟨_, _, rfl, fun rest => ?_⟩
    have hlead : (UInt8.ofNat (0xe0 + c.toNat / 0x1000)).toNat = 0xe0 + c.toNat / 0x1000 :=
      toNat_ofNat_byte (by omega)
    rw [List.cons_append, List.cons_append, List.nil_append,
      next_of_three _ (by omega)
        (isSecond_ofNat (by omega) (by omega) (by omega) (by omega) (by omega) (by omega))
        (isContinuation_ofNat (by omega)),
      low6_ofNat (by omega), low6_ofNat (by omega), hlead,
      show (0xe0 + c.toNat / 0x1000) % 0x10 * 0x1000 + c.toNat / 0x40 % 0x40 * 0x40
        + c.toNat % 0x40 = c.toNat from by omega,
      Char.ofNat_toNat]
  · refine ⟨_, _, rfl, fun rest => ?_⟩
    have hlead : (UInt8.ofNat (0xf0 + c.toNat / 0x40000)).toNat = 0xf0 + c.toNat / 0x40000 :=
      toNat_ofNat_byte (by omega)
    rw [List.cons_append, List.cons_append, List.cons_append, List.nil_append,
      next_of_four _ (by omega)
        (isSecond_ofNat (by omega) (by omega) (by omega) (by omega) (by omega) (by omega))
        (isContinuation_ofNat (by omega)) (isContinuation_ofNat (by omega)),
      low6_ofNat (by omega), low6_ofNat (by omega), low6_ofNat (by omega), hlead,
      show (0xf0 + c.toNat / 0x40000) % 0x8 * 0x40000 + c.toNat / 0x1000 % 0x40 * 0x1000
        + c.toNat / 0x40 % 0x40 * 0x40 + c.toNat % 0x40 = c.toNat from by omega,
      Char.ofNat_toNat]

/-! ### A text -/

theorem encode_cons (c : Char) (s : List Char) : encode (c :: s) = encodeChar c ++ encode s :=
  List.flatMap_cons

theorem encode_append (s t : List Char) : encode (s ++ t) = encode s ++ encode t :=
  List.flatMap_append

theorem encode_flatten (list : List (List Char)) :
    encode list.flatten = (list.map encode).flatten := by
  induction list with
  | nil => rfl
  | cons s list ih => rw [List.flatten_cons, encode_append, ih, List.map_cons, List.flatten_cons]

/-- Only the line feed has its byte. -/
theorem lineFeed_not_mem_encodeChar {c : Char} (h : c ≠ '\n') : 0x0a ∉ encodeChar c := by
  have hrange := toNat_range c
  have hbyte : ∀ n, n < 0x100 → n ≠ 10 → (0x0a : UInt8) ≠ UInt8.ofNat n := by
    intro n hn hne heq
    have hnat := congrArg UInt8.toNat heq
    rw [toNat_ofNat_byte hn] at hnat
    exact hne hnat.symm
  have hcode : c.toNat ≠ 10 := fun hc => h (Char.toNat_inj.mp hc)
  intro hmem
  simp only [encodeChar] at hmem
  split at hmem
  · exact hbyte _ (by omega) hcode (List.mem_singleton.mp hmem)
  split at hmem
  · simp only [List.mem_cons, List.not_mem_nil, or_false] at hmem
    rcases hmem with heq | heq <;> exact hbyte _ (by omega) (by omega) heq
  split at hmem
  · simp only [List.mem_cons, List.not_mem_nil, or_false] at hmem
    rcases hmem with heq | heq | heq <;> exact hbyte _ (by omega) (by omega) heq
  · simp only [List.mem_cons, List.not_mem_nil, or_false] at hmem
    rcases hmem with heq | heq | heq | heq <;> exact hbyte _ (by omega) (by omega) heq

theorem lineFeed_not_mem_encode {s : List Char} (h : '\n' ∉ s) : 0x0a ∉ encode s := by
  intro hmem
  obtain ⟨c, hc, hbyte⟩ := List.mem_flatMap.mp hmem
  exact lineFeed_not_mem_encodeChar (fun heq => h (heq ▸ hc)) hbyte

/-! ### The length of a text -/

theorem length_encodeChar (c : Char) : (encodeChar c).length = c.utf8Size := by
  unfold encodeChar Char.utf8Size
  simp only [UInt32.le_iff_toNat_le, UInt32.toNat_ofNatLT, Char.toNat_val]
  split
  · rw [if_pos (by omega)]
    rfl
  split
  · rw [if_neg (by omega), if_pos (by omega)]
    rfl
  split
  · rw [if_neg (by omega), if_neg (by omega), if_pos (by omega)]
    rfl
  · rw [if_neg (by omega), if_neg (by omega), if_neg (by omega)]
    rfl

/-- The bytes of a text are as many as the text takes in UTF-8. -/
theorem length_encode (s : String) : (encode s.toList).length = s.utf8ByteSize := by
  obtain ⟨chars, rfl⟩ : ∃ chars, s = String.ofList chars := ⟨s.toList, String.ofList_toList.symm⟩
  rw [String.toList_ofList]
  induction chars with
  | nil => rfl
  | cons c chars ih =>
    rw [encode_cons, List.length_append, ih, length_encodeChar, String.ofList_cons,
      String.utf8ByteSize_append, String.utf8ByteSize_singleton]

theorem decodeLossyFrom_encode (s done : List Char) :
    decodeLossyFrom done (encode s) = done.reverse ++ s := by
  induction s generalizing done with
  | nil => simp [encode, decodeLossyFrom]
  | cons c s ih =>
    obtain ⟨lead, tail, hc, hnext⟩ := next_encodeChar c
    rw [encode_cons, hc, List.cons_append, decodeLossyFrom, hnext]
    simp only [Option.getD_some, ih, List.reverse_cons, List.append_assoc, List.singleton_append]

/-- The lossy reader loses nothing of a text. -/
theorem decodeLossy_encode (s : List Char) : decodeLossy (encode s) = s := by
  rw [decodeLossy, decodeLossyFrom_encode, List.reverse_nil, List.nil_append]

theorem decodeFrom?_encode (s done : List Char) :
    decodeFrom? done (encode s) = some (done.reverse ++ s) := by
  induction s generalizing done with
  | nil => simp [encode, decodeFrom?]
  | cons c s ih =>
    obtain ⟨lead, tail, hc, hnext⟩ := next_encodeChar c
    rw [encode_cons, hc, List.cons_append, decodeFrom?, hnext]
    simp only [ih, List.reverse_cons, List.append_assoc, List.singleton_append]

/-- The strict reader accepts the bytes of every text. -/
theorem decode?_encode (s : List Char) : decode? (encode s) = some s := by
  rw [decode?, decodeFrom?_encode, List.reverse_nil, List.nil_append]

/-- The byte strings that are the bytes of some text. -/
def WellFormed (s : Bytes) : Prop :=
  ∃ text, encode text = s

/-- Well-formed bytes are read without loss: writing the text gives them back. -/
theorem WellFormed.encode_decodeLossy {s : Bytes} (h : WellFormed s) :
    encode (decodeLossy s) = s := by
  obtain ⟨text, rfl⟩ := h
  rw [decodeLossy_encode]

end WireSchema.Utf8
