import Mathlib
import WireSchema.Proofs.Schema.Catalogue
import WireSchema.Proofs.Wire.Field
import WireSchema.Proofs.Wire.Frame

/-!
# Reading stays in its domain

Reading cuts bytes off the front of a payload, subtracts lengths, divides by the length of elements
and records, and goes round once for each record. Here is a reader that stops wherever one of these
steps is asked for something that it is not defined for. For the fields of a declared catalogue it
never stops there: it gives what `Catalogue.decode` gives, for every byte string.

* `Misstep` and `Halt` — the ways to stop;
* `Guarded.field`, `Guarded.rounds` — the reader of a field, and its loop over records;
* `Guarded.field_eq` — well-formed fields keep every step in its domain;
* `Catalogue.decodeGuarded_eq` — so does a whole catalogue, and the faults that are left are those
  of malformed frames.
-/

namespace WireSchema

/-! ### Steps and their domains -/

/-- A step that is asked for something it is not defined for. -/
inductive Misstep where
  | beyondEnd (asked left : ℕ)
  | belowZero (n m : ℕ)
  | byZero (n : ℕ)
  | notScalar (field : String)
  | unevenRound (used itemLen : ℕ)
  | endless
  deriving DecidableEq, Repr

/-- Why reading stops without a value: at a misstep, or at a fault of what is read. -/
inductive Halt (ε : Type) where
  | misstep (m : Misstep)
  | fault (e : ε)
  deriving DecidableEq, Repr

/-- The same stop with another report of the fault. -/
def Halt.map {ε ε' : Type} (report : ε → ε') : Halt ε → Halt ε'
  | misstep m => misstep m
  | fault e => fault (report e)

namespace Guarded

/-- The first `n` bytes and the bytes after them. -/
def take {ε : Type} (n : ℕ) (s : Bytes) : Except (Halt ε) (Bytes × Bytes) :=
  if n ≤ s.length then .ok (s.take n, s.drop n) else .error (.misstep (.beyondEnd n s.length))

/-- The difference of lengths. -/
def sub (n m : ℕ) : Except (Halt WireFault) ℕ :=
  if m ≤ n then .ok (n - m) else .error (.misstep (.belowZero n m))

/-- The remainder of a length. -/
def mod (n m : ℕ) : Except (Halt WireFault) ℕ :=
  if m = 0 then .error (.misstep (.byZero n)) else .ok (n % m)

/-- The quotient of a length. -/
def div (n m : ℕ) : Except (Halt WireFault) ℕ :=
  if m = 0 then .error (.misstep (.byZero n)) else .ok (n / m)

@[simp]
theorem take_of_le {ε : Type} {n : ℕ} {s : Bytes} (h : n ≤ s.length) :
    (take n s : Except (Halt ε) _) = .ok (s.take n, s.drop n) :=
  if_pos h

@[simp]
theorem sub_of_le {n m : ℕ} (h : m ≤ n) : sub n m = .ok (n - m) :=
  if_pos h

@[simp]
theorem mod_of_pos (n : ℕ) {m : ℕ} (h : 0 < m) : mod n m = .ok (n % m) :=
  if_neg (Nat.ne_of_gt h)

@[simp]
theorem div_of_pos (n : ℕ) {m : ℕ} (h : 0 < m) : div n m = .ok (n / m) :=
  if_neg (Nat.ne_of_gt h)

/-! ### Reading with guarded steps -/

/-- The number that bytes stand for, the most significant first. -/
def bigEndian (s : Bytes) : ℕ :=
  s.foldl (fun n b => n * 0x100 + b.toNat) 0

/-- Reads the bits of a number. -/
def number (w : ByteWidth) (s : Bytes) : Except (Halt WireFault) (ℕ × Bytes) :=
  if s.length < w.bytes then .error (.fault .truncated)
  else do
    let (digits, rest) ← take w.bytes s
    .ok (bigEndian digits, rest)

/-- Reads the number of a scalar. -/
def scalar (kind : ScalarKind) (s : Bytes) : Except (Halt WireFault) (ℤ × Bytes) := do
  let (n, rest) ← number kind.width s
  .ok (kind.ofBits n, rest)

/-- Reads the content of a sequence. -/
def content (message : String) (f : Field) (type : SeqType) (count : Option CountType) (s : Bytes) :
    Except (Halt WireFault) (Bytes × Bytes) :=
  match count with
  | some t => do
    let (n, rest) ← number t.width s
    let most ← sub f.maxLen t.width.bytes
    if rest.length < n * type.elementSize ∨ most < n * type.elementSize then
      .error (.fault (.fieldTooLong message f.name))
    else take (n * type.elementSize) rest
  | none => do
    let odd ← mod s.length type.elementSize
    if odd ≠ 0 then .error (.fault (.partialItem f.name))
    else do
      let n ← div s.length type.elementSize
      take (n * type.elementSize) s

/-- Reads the number of a field of a record, which has to be a scalar. -/
def subfield (f : Field) (s : Bytes) : Except (Halt WireFault) (ℤ × Bytes) :=
  match f.kind with
  | .scalar kind => scalar kind s
  | _ => .error (.misstep (.notScalar f.name))

/-- Reads the numbers of a record. -/
def subfields : List Field → Bytes → Except (Halt WireFault) (List ℤ × Bytes)
  | [], s => .ok ([], s)
  | f :: fields, s => do
    let (v, s) ← subfield f s
    let (vs, s) ← subfields fields s
    .ok (v :: vs, s)

/-- Reads records until no bytes are left; `done` holds earlier ones, reversed. Every round has to
use the length of one record. There are only so many rounds, so that rounds which use nothing do not
go on forever. -/
def rounds (fields : List Field) (itemLen : ℕ) (done : List (List ℤ)) :
    ℕ → Bytes → Except (Halt WireFault) (List (List ℤ) × Bytes)
  | _, [] => .ok (done.reverse, [])
  | 0, _ :: _ => .error (.misstep .endless)
  | fuel + 1, s => do
    let (record, rest) ← subfields fields s
    if rest.length + itemLen ≠ s.length then
      .error (.misstep (.unevenRound (s.length - rest.length) itemLen))
    else rounds fields itemLen (record :: done) fuel rest

/-- The columns of records as fields. -/
def columnFields (columns : List Column) : List Field :=
  columns.map fun c => Field.ofScalar c.name c.kind

/-- Reads the value of a field. -/
def field (message : String) (f : Field) (s : Bytes) : Except (Halt WireFault) (Value × Bytes) :=
  match f.kind with
  | .scalar kind => do
    let (v, rest) ← scalar kind s
    .ok (kind.value v, rest)
  | .sequence type count _ => do
    let (data, rest) ← content message f type count s
    .ok (type.value data, rest)
  | .records _ columns itemLen _ => do
    let odd ← mod s.length itemLen
    if odd ≠ 0 then .error (.fault (.partialItem f.name))
    else do
      let _ ← div s.length itemLen
      let (records, rest) ← rounds (columnFields columns) itemLen [] s.length s
      .ok (.records records, rest)

/-- Reads the values of fields in order. -/
def fields (message : String) : List Field → Bytes → Except (Halt WireFault) (List Value × Bytes)
  | [], s => .ok ([], s)
  | f :: fs, s => do
    let (v, s) ← field message f s
    let (vs, s) ← fields message fs s
    .ok (v :: vs, s)

/-- Reads a payload after its length has been checked. -/
def payload (m : MessageDef) (s : Bytes) : Except (Halt WireFault) (List Value) := do
  if ¬m.layout.fields.isEmpty then
    (m.checkLength s.length).mapError Halt.fault
  let (values, _) ← fields m.name m.layout.fields s
  .ok values

/-! ### No misstep in a well-formed field -/

theorem number_of_get?_none {w : ByteWidth} {s : Bytes} (h : w.get? s = none) :
    number w s = .error (.fault .truncated) :=
  if_pos ((w.get?_eq_none_iff s).mp h)

theorem number_of_get?_some {w : ByteWidth} {s rest : Bytes} {n : ℕ}
    (h : w.get? s = some (n, rest)) : number w s = .ok (n, rest) := by
  have hlength : ¬s.length < w.bytes := by
    intro hshort
    rw [(w.get?_eq_none_iff s).mpr hshort] at h
    cases h
  obtain ⟨hn, rfl⟩ := ByteWidth.get?_eq_some h
  have hput := w.length_put n
  rw [number, if_neg hlength, take_of_le (Nat.not_lt.mp hlength)]
  show Except.ok (bigEndian ((w.put n ++ rest).take w.bytes), (w.put n ++ rest).drop w.bytes) = _
  rw [← hput, List.take_left, List.drop_left]
  have hdigits : bigEndian (w.put n) = n := by
    cases w <;>
      simp only [ByteWidth.put, ByteWidth.capacity, bigEndian, List.foldl_cons, List.foldl_nil,
        UInt8.toNat_ofNat'] at hn ⊢ <;> omega
  rw [hdigits]

theorem scalar_eq (kind : ScalarKind) (s : Bytes) :
    scalar kind s = (kind.read s).mapError Halt.fault := by
  unfold scalar ScalarKind.read
  cases h : kind.width.get? s with
  | none =>
    rw [number_of_get?_none h]
    rfl
  | some out =>
    rw [number_of_get?_some h]
    rfl

theorem subfields_eq (columns : List Column) (s : Bytes) :
    subfields (columnFields columns) s = (readColumns columns s).mapError Halt.fault := by
  induction columns generalizing s with
  | nil => rfl
  | cons c columns ih =>
    show (do
      let (v, s) ← scalar c.kind s
      let (vs, s) ← subfields (columnFields columns) s
      Except.ok (v :: vs, s)) = _
    rw [scalar_eq, readColumns]
    cases c.kind.read s with
    | error e => rfl
    | ok out =>
      obtain ⟨v, rest⟩ := out
      show (do
        let (vs, s) ← subfields (columnFields columns) rest
        Except.ok (v :: vs, s)) = _
      rw [ih]
      simp only
      cases readColumns columns rest <;> rfl

/-- Every round of the loop over records uses the length of one record, so that there are as many
rounds as whole records. -/
theorem rounds_eq {columns : List Column} (hpos : 0 < itemLength columns) {n fuel : ℕ}
    {done : List (List ℤ)} {s : Bytes} (hlength : s.length = n * itemLength columns)
    (hfuel : n ≤ fuel) :
    rounds (columnFields columns) (itemLength columns) done fuel s
      = (readRecords columns done n s).mapError Halt.fault := by
  induction n generalizing fuel done s with
  | zero =>
    rw [Nat.zero_mul] at hlength
    rw [List.eq_nil_of_length_eq_zero hlength]
    cases fuel <;> rfl
  | succ n ih =>
    obtain ⟨fuel, rfl⟩ : ∃ k, fuel = k + 1 := ⟨fuel - 1, by omega⟩
    rw [Nat.succ_mul] at hlength
    cases s with
    | nil =>
      rw [List.length_nil] at hlength
      omega
    | cons b s =>
      simp only [rounds, subfields_eq, readRecords]
      cases hread : readColumns columns (b :: s) with
      | error e => rfl
      | ok out =>
        obtain ⟨record, rest⟩ := out
        have hrest : rest.length + itemLength columns = (b :: s).length := by
          rw [(readColumns_eq_ok hread).2, Nat.add_comm]
        show (if rest.length + itemLength columns ≠ (b :: s).length then _
          else rounds _ _ _ _ _) = _
        rw [if_neg (not_not.mpr hrest)]
        exact ih (Nat.add_right_cancel (hrest.trans hlength)) (Nat.le_of_succ_le_succ hfuel)

/-- The content behind a count is taken only if it is there, and the count fits the field. -/
theorem content_some {message : String} {f : Field} {type : SeqType} {t : CountType}
    (hcount : t.width.bytes ≤ f.maxLen) (s : Bytes) :
    content message f type (some t) s
      = (readCounted (.fieldTooLong message f.name) type t (f.contentMax (some t)) s).mapError
        Halt.fault := by
  simp only [content, readCounted]
  cases hget : t.width.get? s with
  | none =>
    rw [number_of_get?_none hget]
    rfl
  | some out =>
    obtain ⟨n, rest⟩ := out
    rw [number_of_get?_some hget, sub_of_le hcount]
    simp only [takeExactly?_eq]
    show (if rest.length < n * type.elementSize ∨ f.contentMax (some t) < n * type.elementSize
      then _ else _) = _
    by_cases hmost : f.contentMax (some t) < n * type.elementSize
    · rw [if_pos (Or.inr hmost), if_pos hmost]
      rfl
    rw [if_neg hmost]
    by_cases hleft : n * type.elementSize ≤ rest.length
    · rw [if_neg (not_or.mpr ⟨Nat.not_lt.mpr hleft, hmost⟩), take_of_le hleft, if_pos hleft]
      rfl
    · rw [if_pos (Or.inl (Nat.not_le.mp hleft)), if_neg hleft]
      rfl

/-- Without a count, all that is left is taken. -/
theorem content_none {message : String} {f : Field} {type : SeqType} (s : Bytes) :
    content message f type none s
      = if s.length % type.elementSize = 0 then .ok (s, [])
        else .error (.fault (.partialItem f.name)) := by
  have hsize := type.elementSize_pos
  simp only [content]
  rw [mod_of_pos _ hsize, div_of_pos _ hsize]
  show (if s.length % type.elementSize ≠ 0 then _
    else take (s.length / type.elementSize * type.elementSize) s) = _
  by_cases hodd : s.length % type.elementSize = 0
  · have hwhole : s.length / type.elementSize * type.elementSize = s.length :=
      Nat.div_mul_cancel (Nat.dvd_of_mod_eq_zero hodd)
    rw [if_neg (not_not.mpr hodd), if_pos hodd, hwhole, take_of_le (Nat.le_refl _),
      List.take_length, List.drop_length]
  · rw [if_pos hodd, if_neg hodd]

variable {message : String} {f : Field}

/-- Reading a well-formed field never steps outside of a domain. -/
theorem field_eq (hf : f.WellFormed) (s : Bytes) :
    field message f s = (f.read message s).mapError Halt.fault := by
  cases hkind : f.kind with
  | scalar kind =>
    simp only [field, Field.read, hkind, scalar_eq]
    cases kind.read s <;> rfl
  | sequence type count format =>
    have hshape := hf.sequence hkind
    cases count with
    | none =>
      simp only [field, Field.read, hkind, content_none]
      by_cases hodd : s.length % type.elementSize = 0
      · rw [if_pos hodd, if_pos hodd]
        rfl
      · rw [if_neg hodd, if_neg hodd]
        rfl
    | some t =>
      have hcount : t.width.bytes ≤ f.maxLen := Nat.le_trans hshape.count_le hshape.min_le_max
      simp only [field, Field.read, hkind, content_some hcount]
      cases readCounted (.fieldTooLong message f.name) type t (f.contentMax (some t)) s <;> rfl
  | records recordName columns itemLen maxItems =>
    have hshape := hf.records hkind
    have hpos := hshape.itemLen_pos
    simp only [field, Field.read, hkind, mod_of_pos _ hpos, div_of_pos _ hpos]
    show (if s.length % itemLen ≠ 0 then _ else _) = _
    by_cases hodd : s.length % itemLen = 0
    · have hwhole : s.length = s.length / itemLen * itemLen :=
        (Nat.div_mul_cancel (Nat.dvd_of_mod_eq_zero hodd)).symm
      rw [hshape.itemLen_eq] at hwhole hpos ⊢
      rw [if_neg (not_not.mpr (hshape.itemLen_eq ▸ hodd)), if_pos (hshape.itemLen_eq ▸ hodd)]
      show (do
        let (records, rest) ← rounds (columnFields columns) (itemLength columns) [] s.length s
        .ok (Value.records records, rest)) = _
      rw [rounds_eq hpos hwhole (Nat.div_le_self _ _)]
      cases readRecords columns [] (s.length / itemLength columns) s <;> rfl
    · rw [if_pos hodd, if_neg hodd]
      rfl

/-- Records without columns are divided by zero, and a count may be wider than its field. -/
example : field "Trace" ⟨"points", 0, 8, .records "Point" [] 0 2⟩ [7]
    = .error (.misstep (.byZero 1)) := by
  decide

example : field "Trace" ⟨"label", 0, 1, .sequence .bytes (some .u16) .plain⟩ [0, 1, 7]
    = .error (.misstep (.belowZero 1 2)) := by
  decide

theorem fields_eq {list : List Field} (hlist : ∀ f ∈ list, f.WellFormed) (s : Bytes) :
    fields message list s = (readFields message list s).mapError Halt.fault := by
  induction list generalizing s with
  | nil => rfl
  | cons f list ih =>
    rw [List.forall_mem_cons] at hlist
    rw [fields, readFields, field_eq hlist.1]
    cases f.read message s with
    | error e => rfl
    | ok out =>
      obtain ⟨v, rest⟩ := out
      show (do
        let (vs, s) ← fields message list rest
        .ok (v :: vs, s)) = _
      rw [ih hlist.2]
      simp only
      cases readFields message list rest <;> rfl

theorem payload_eq {m : MessageDef} (hl : m.layout.WellFormed) (s : Bytes) :
    payload m s = (m.readPayload s).mapError Halt.fault := by
  unfold payload MessageDef.readPayload
  rw [fields_eq hl.fields]
  cases m.layout.fields.isEmpty <;> cases m.checkLength s.length <;>
    cases readFields m.name m.layout.fields s <;> rfl

end Guarded

/-- Reads the message of a frame. -/
def Catalogue.frameGuarded (c : Catalogue) (h : FrameHeader) (payload : Bytes) :
    Except (Halt WireError) Message :=
  let failed (e : WireFault) : WireError := ⟨h.userId, h.type, h.payloadLen.toNat, e⟩
  match c.byId? h.type with
  | none => .error (.fault (failed .unknownType))
  | some m => do
    let values ← (Guarded.payload m payload).mapError (Halt.map failed)
    .ok ⟨h.userId, h.type, values⟩

/-- Reads the message of the first frame of a byte string. -/
def Catalogue.decodeGuarded (c : Catalogue) (s : Bytes) : Except (Halt WireError) Message :=
  match FrameHeader.peek? s with
  | none => .error (.fault ⟨0, 0, 0, .headerTooShort⟩)
  | some h =>
    if s.length < h.frameLen then
      .error (.fault ⟨h.userId, h.type, h.payloadLen.toNat, .truncated⟩)
    else do
      let (_, rest) ← Guarded.take headerSize s
      let (payload, _) ← Guarded.take h.payloadLen.toNat rest
      c.frameGuarded h payload

/-! ### Faults of reading -/

/-- The faults that reading a frame can have. -/
def WireFault.IsOfReading : WireFault → Prop
  | headerTooShort | truncated | unknownType => True
  | badLength .. | fieldTooLong .. | partialItem _ => True
  | _ => False

section Faults

variable {message : String} {s : Bytes} {e : WireFault}

theorem ScalarKind.read_eq_error {kind : ScalarKind} (h : kind.read s = .error e) :
    e = .truncated := by
  unfold read at h
  split at h <;> cases h
  rfl

theorem readColumns_eq_error {columns : List Column} (h : readColumns columns s = .error e) :
    e = .truncated := by
  induction columns generalizing s with
  | nil => cases h
  | cons c columns ih =>
    rw [readColumns] at h
    split at h
    · rename_i hread
      cases h
      exact ScalarKind.read_eq_error hread
    split at h
    · rename_i hread
      cases h
      exact ih hread
    · cases h

theorem readRecords_eq_error {columns : List Column} {done : List (List ℤ)} {n : ℕ}
    (h : readRecords columns done n s = .error e) : e = .truncated := by
  induction n generalizing done s with
  | zero => cases h
  | succ n ih =>
    rw [readRecords] at h
    split at h
    · rename_i hread
      cases h
      exact readColumns_eq_error hread
    · exact ih h

theorem readCounted_eq_error {tooLong : WireFault} {type : SeqType} {t : CountType} {most : ℕ}
    (h : readCounted tooLong type t most s = .error e) : e = .truncated ∨ e = tooLong := by
  unfold readCounted at h
  split at h
  · cases h
    exact Or.inl rfl
  split at h
  · cases h
    exact Or.inr rfl
  split at h <;> cases h
  exact Or.inr rfl

theorem Field.isOfReading_of_read {f : Field} (h : f.read message s = .error e) :
    e.IsOfReading := by
  unfold read at h
  split at h
  · split at h <;> cases h
    rename_i hread
    rw [ScalarKind.read_eq_error hread]
    trivial
  · split at h <;> cases h
    rename_i hread
    rcases readCounted_eq_error hread with rfl | rfl <;> trivial
  · split at h <;> cases h
    trivial
  · split at h
    · split at h <;> cases h
      rename_i hread
      rw [readRecords_eq_error hread]
      trivial
    · cases h
      trivial

theorem isOfReading_of_readFields {fields : List Field}
    (h : readFields message fields s = .error e) : e.IsOfReading := by
  induction fields generalizing s with
  | nil => cases h
  | cons f fields ih =>
    rw [readFields] at h
    split at h
    · rename_i hread
      cases h
      exact Field.isOfReading_of_read hread
    split at h
    · rename_i hread
      cases h
      exact ih hread
    · cases h

theorem MessageDef.isOfReading_of_checkLength {m : MessageDef} {length : ℕ}
    (h : m.checkLength length = .error e) : e.IsOfReading := by
  unfold checkLength at h
  split at h <;> cases h
  trivial

theorem MessageDef.isOfReading_of_readPayload {m : MessageDef} (h : m.readPayload s = .error e) :
    e.IsOfReading := by
  simp only [readPayload] at h
  split at h
  · rename_i hlength
    cases h
    split at hlength
    · cases hlength
    · exact isOfReading_of_checkLength hlength
  split at h
  · rename_i hread
    cases h
    exact isOfReading_of_readFields hread
  · cases h

end Faults

namespace Catalogue

variable {version : String} {decls : List MessageDecl} {c : Catalogue} {s : Bytes} {e : WireError}

/-- A frame that cannot be read is reported with the contents of its header. -/
theorem decodeFrame_eq_error {h : FrameHeader} {payload : Bytes}
    (herror : c.decodeFrame h payload = .error e) :
    e.fault.IsOfReading ∧ e.userId = h.userId ∧ e.type = h.type ∧
      e.payloadLen = h.payloadLen.toNat := by
  simp only [decodeFrame] at herror
  split at herror
  · cases herror
    exact ⟨trivial, rfl, rfl, rfl⟩
  split at herror
  · rename_i hread
    cases herror
    exact ⟨MessageDef.isOfReading_of_readPayload hread, rfl, rfl, rfl⟩
  · cases herror

/-- A byte string that holds a header and cannot be read is reported with it. -/
theorem decode_eq_error (herror : c.decode s = .error e) :
    e.fault.IsOfReading ∧ ∀ h, FrameHeader.peek? s = some h →
      e.userId = h.userId ∧ e.type = h.type ∧ e.payloadLen = h.payloadLen.toNat := by
  unfold decode at herror
  split at herror
  · cases herror
    unfold incompleteFrame
    split
    · rename_i hnone
      refine ⟨trivial, fun h hsome => ?_⟩
      rw [hnone] at hsome
      cases hsome
    · rename_i header hpeek
      refine ⟨trivial, fun h hsome => ?_⟩
      rw [hpeek] at hsome
      cases hsome
      exact ⟨rfl, rfl, rfl⟩
  · rename_i header payload rest hsplit
    obtain ⟨hfault, hheader⟩ := decodeFrame_eq_error herror
    refine ⟨hfault, fun h hsome => ?_⟩
    rw [(splitFrame?_eq_some hsplit).1, frameBytes, List.append_assoc,
      FrameHeader.peek?_encode_append] at hsome
    cases hsome
    exact hheader

theorem frameGuarded_eq (hc : ofDecls version decls = .ok c) (h : FrameHeader) (payload : Bytes) :
    c.frameGuarded h payload = (c.decodeFrame h payload).mapError Halt.fault := by
  unfold frameGuarded decodeFrame
  cases hm : c.byId? h.type with
  | none => rfl
  | some m =>
    have hl := wellFormed_of_mem hc (byId?_eq_some hm).1
    simp only [Guarded.payload_eq hl]
    cases m.readPayload payload <;> rfl

/-- Behind a header there are the bytes of a payload exactly if the frame is complete. -/
theorem payloadLen_le_iff {h : FrameHeader} (hpeek : FrameHeader.peek? s = some h) :
    headerSize ≤ s.length ∧
      (h.payloadLen.toNat ≤ (s.drop headerSize).length ↔ ¬s.length < h.frameLen) := by
  have hhead : headerSize ≤ s.length := by
    rw [FrameHeader.peek?_eq_some hpeek, List.length_append, h.length_encode]
    exact Nat.le_add_right _ _
  refine ⟨hhead, ?_⟩
  unfold FrameHeader.frameLen
  rw [List.length_drop]
  omega

/-- Reading with guarded steps is reading: no step leaves its domain, for every byte string. The
faults that are left are those of malformed frames, and carry what the header tells. -/
theorem decodeGuarded_eq (hc : ofDecls version decls = .ok c) (s : Bytes) :
    c.decodeGuarded s = (c.decode s).mapError Halt.fault ∧
      ∀ e, c.decode s = .error e → e.fault.IsOfReading ∧
        ∀ high low type userId rest, s = high :: low :: type :: userId :: rest →
          e.userId = userId ∧ e.type = type ∧ e.payloadLen = high.toNat * 0x100 + low.toNat := by
  refine ⟨?_, fun e herror => ⟨(decode_eq_error herror).1, ?_⟩⟩
  · unfold decodeGuarded decode splitFrame? incompleteFrame
    cases hpeek : FrameHeader.peek? s with
    | none => rfl
    | some h =>
      obtain ⟨hhead, hpayload⟩ := payloadLen_le_iff hpeek
      simp only [takeExactly?_eq]
      by_cases hshort : s.length < h.frameLen
      · simp only [if_pos hshort, if_neg (fun hleft => hpayload.mp hleft hshort)]
        rfl
      · have hleft := hpayload.mpr hshort
        simp only [if_neg hshort, if_pos hleft, Guarded.take_of_le hhead]
        show (do
          let (payload, _) ← Guarded.take h.payloadLen.toNat (s.drop headerSize)
          c.frameGuarded h payload) = _
        rw [Guarded.take_of_le hleft]
        exact frameGuarded_eq hc h _
  · rintro high low type userId rest rfl
    obtain ⟨huser, htype, hlength⟩ := (decode_eq_error herror).2 _ rfl
    have hhigh := high.toNat_lt
    have hlow := low.toNat_lt
    refine ⟨huser, htype, hlength.trans ?_⟩
    rw [UInt16.toNat_ofNat']
    omega

/-- A message with a number and points. -/
def traceDecls : List MessageDecl :=
  [{ name := "Trace", id := 4
     body := .fields [.short "pen u8",
       .long "points struct" none
         { recordName := some "Point", fields := some [.short "x i16", .short "y i16"] }] }]

/-- The catalogue of `traceDecls`. -/
def traceCatalogue : Catalogue :=
  ⟨"1", [⟨"Trace", "trace", 4, "", none,
    ⟨[Field.ofScalar "pen" (.integer .u8 .plain),
      ⟨"points", 0, 65532, .records "Point"
        [⟨"x", .integer .i16 .plain⟩, ⟨"y", .integer .i16 .plain⟩] 4 16383⟩], 1, 65533⟩⟩]⟩

theorem decodeGuarded_trace :
    traceCatalogue.decodeGuarded [0, 5, 4, 9, 1, 0xff, 0xfe, 0, 3]
        = .ok ⟨9, 4, [.int 1, .records [[-2, 3]]]⟩ ∧
      traceCatalogue.decodeGuarded [0, 4, 4, 9, 1, 0xff, 0xfe, 0, 3]
        = .error (.fault ⟨9, 4, 4, .partialItem "points"⟩) := by
  have hc : ofDecls "1" traceDecls = .ok traceCatalogue := by cbv
  have hread : traceCatalogue.decode [0, 5, 4, 9, 1, 0xff, 0xfe, 0, 3]
      = .ok ⟨9, 4, [.int 1, .records [[-2, 3]]]⟩ := by cbv
  have hpartial : traceCatalogue.decode [0, 4, 4, 9, 1, 0xff, 0xfe, 0, 3]
      = .error ⟨9, 4, 4, .partialItem "points"⟩ := by cbv
  constructor
  · rw [(decodeGuarded_eq hc _).1, hread]
    rfl
  · rw [(decodeGuarded_eq hc _).1, hpartial]
    rfl

end Catalogue

end WireSchema
