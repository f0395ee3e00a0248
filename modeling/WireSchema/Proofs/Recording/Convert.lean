import Mathlib
import WireSchema.CommandLine.Session
import WireSchema.Proofs.Command.Agreement
import WireSchema.Proofs.Recording.Binary
import WireSchema.Proofs.Recording.Progress

/-!
# Converting a recording to text and back

A conversion follows the items of its reader, so that it is enough to know these: messages are
written in their order, and malformed frames and lines are skipped one by one. A recording whose
messages can all be written is converted to the text form without a message being skipped, and the
text form is converted back to the same bytes.

* `convertFrames_of_yields`, `convertCommands_of_yields` — conversions of the items of readers;
* `toTextRecording_of_ofBytes`, `toBinaryRecording_of_ofBytes` — whole recordings, of any items;
* `toTextRecording_of_encode`, `toBinaryRecording_of_commands` — recordings that were written;
* `Files` — files by their paths, for sessions;
* `Session.run_encode_run_decode` — the sessions that convert a recording and convert it back.
-/

namespace WireSchema

variable {c : Catalogue} {options : CommandOptions}

/-! ### Conversions and the items of readers -/

/-- The messages of a binary recording are converted to their texts, and its errors are skipped. -/
theorem convertFrames_of_yields {r : BinaryReader} {items : List (Except WireError Message)}
    {texts : List (List Char)}
    (htexts : List.Forall₂ (fun msg text => textMessage c msg = .ok text) (results items) texts)
    (h : Yields (BinaryReader.next c) r items) {fuel : ℕ} (hfuel : items.length < fuel)
    (done : List Bytes) (count : ConversionCount) :
    convertFrames c fuel done count r
      = ((texts.map Utf8.encode).reverse ++ done,
        .ok ⟨count.written + texts.length, count.skipped + errorCount items⟩) := by
  induction h generalizing texts fuel done count with
  | atEnd hnext _ =>
    obtain ⟨fuel, rfl⟩ := Nat.exists_eq_add_one_of_ne_zero (Nat.ne_zero_of_lt hfuel)
    cases htexts
    rw [convertFrames, hnext]
    rfl
  | @item r r' item items hnext _ ih =>
    obtain ⟨fuel, rfl⟩ := Nat.exists_eq_add_one_of_ne_zero (Nat.ne_zero_of_lt hfuel)
    have hless : items.length < fuel := Nat.lt_of_succ_lt_succ hfuel
    rw [convertFrames, hnext]
    cases item with
    | error e =>
      simp only [ih htexts hless, errorCount_cons_error, Nat.add_assoc, Nat.add_comm 1]
    | ok msg =>
      rw [results_cons_ok, List.forall₂_cons_left_iff] at htexts
      obtain ⟨text, texts, htext, htexts, rfl⟩ := htexts
      simp only [htext, ih htexts hless, errorCount_cons_ok, List.map_cons, List.reverse_cons,
        List.append_assoc, List.singleton_append, List.length_cons, Nat.add_assoc, Nat.add_comm 1]

/-- An error of one line. -/
def RecordingError.IsLine (e : RecordingError) : Prop :=
  ∃ number fault, e = .line number fault

/-- The messages among items that can be written, in order. -/
def Catalogue.accepted (c : Catalogue) (items : List (Except RecordingError Message)) :
    List Message :=
  (results items).filter fun msg => (c.encode msg).isOk

theorem Catalogue.length_accepted_le (c : Catalogue)
    (items : List (Except RecordingError Message)) : (c.accepted items).length ≤ items.length :=
  Nat.le_trans (List.length_filter_le _ _) (List.length_filterMap_le _ _)

theorem Catalogue.accepted_cons_of_ok {msg : Message} {s : Bytes} (h : c.encode msg = .ok s)
    (items : List (Except RecordingError Message)) :
    c.accepted (.ok msg :: items) = msg :: c.accepted items := by
  simp only [accepted, results_cons_ok, List.filter_cons, h]
  rfl

theorem Catalogue.accepted_cons_of_error {msg : Message} {e : WireError}
    (h : c.encode msg = .error e) (items : List (Except RecordingError Message)) :
    c.accepted (.ok msg :: items) = c.accepted items := by
  simp only [accepted, results_cons_ok, List.filter_cons, h]
  rfl

theorem Catalogue.accepted_map_ok {msgs : List Message} {frames : List Bytes}
    (h : List.Forall₂ (fun msg s => c.encode msg = .ok s) msgs frames) :
    c.accepted (msgs.map .ok) = msgs := by
  induction h with
  | nil => rfl
  | cons hs _ ih => rw [List.map_cons, accepted_cons_of_ok hs, ih]

/-- The messages of a text recording that can be written are converted to their frames. The others
are skipped, and so are the errors of its lines. -/
theorem convertCommands_of_yields {r : TextReader} {items : List (Except RecordingError Message)}
    {frames : List Bytes} (hlines : ∀ e, .error e ∈ items → e.IsLine)
    (hframes : List.Forall₂ (fun msg s => c.encode msg = .ok s) (c.accepted items) frames)
    (h : Yields (TextReader.next c options) r items) {fuel : ℕ} (hfuel : items.length < fuel)
    (done : List Bytes) (count : ConversionCount) :
    convertCommands c options fuel done count r
      = (frames.reverse ++ done, .ok ⟨count.written + frames.length,
        count.skipped + (items.length - frames.length)⟩) := by
  induction h generalizing frames fuel done count with
  | atEnd hnext _ =>
    obtain ⟨fuel, rfl⟩ := Nat.exists_eq_add_one_of_ne_zero (Nat.ne_zero_of_lt hfuel)
    cases hframes
    rw [convertCommands, hnext]
    rfl
  | @item r r' item items hnext _ ih =>
    obtain ⟨fuel, rfl⟩ := Nat.exists_eq_add_one_of_ne_zero (Nat.ne_zero_of_lt hfuel)
    have hless : items.length < fuel := Nat.lt_of_succ_lt_succ hfuel
    have hlines' : ∀ e, .error e ∈ items → e.IsLine :=
      fun e he => hlines e (List.mem_cons_of_mem _ he)
    -- An item that is skipped leaves the frames as they are.
    have hskipped : ∀ frames : List Bytes,
        List.Forall₂ (fun msg s => c.encode msg = .ok s) (c.accepted items) frames →
          count.skipped + 1 + (items.length - frames.length)
            = count.skipped + ((item :: items).length - frames.length) := by
      intro frames hframes
      have hle := c.length_accepted_le items
      rw [hframes.length_eq] at hle
      rw [List.length_cons]
      omega
    rw [convertCommands, hnext]
    cases item with
    | error e =>
      obtain ⟨number, fault, rfl⟩ := hlines e List.mem_cons_self
      simp only [ih hlines' hframes hless, hskipped frames hframes]
    | ok msg =>
      cases hencode : c.encode msg with
      | error e =>
        rw [Catalogue.accepted_cons_of_error hencode] at hframes
        have hpart : binaryMessage c msg = .error (.wire e) := by rw [binaryMessage, hencode]; rfl
        simp only [hpart, ih hlines' hframes hless, hskipped frames hframes]
      | ok s =>
        rw [Catalogue.accepted_cons_of_ok hencode, List.forall₂_cons_left_iff] at hframes
        obtain ⟨s', frames, hs, hframes, rfl⟩ := hframes
        cases hencode.symm.trans hs
        have hpart : binaryMessage c msg = .ok s := by rw [binaryMessage, hencode]; rfl
        simp only [hpart, ih hlines' hframes hless, List.reverse_cons, List.append_assoc,
          List.singleton_append, List.length_cons, Nat.add_assoc, Nat.add_comm 1,
          Nat.add_sub_add_right]

/-- A conversion that comes to its end has only met errors of lines. -/
theorem isLine_of_convertCommands {r : TextReader} {items : List (Except RecordingError Message)}
    (h : Yields (TextReader.next c options) r items) {fuel : ℕ} (hfuel : items.length < fuel)
    {done : List Bytes} {count n : ConversionCount}
    (hok : (convertCommands c options fuel done count r).2 = .ok n) :
    ∀ e, .error e ∈ items → e.IsLine := by
  induction h generalizing fuel done count with
  | atEnd _ _ => exact fun e he => absurd he List.not_mem_nil
  | @item r r' item items hnext _ ih =>
    obtain ⟨fuel, rfl⟩ := Nat.exists_eq_add_one_of_ne_zero (Nat.ne_zero_of_lt hfuel)
    have hless : items.length < fuel := Nat.lt_of_succ_lt_succ hfuel
    rw [convertCommands, hnext] at hok
    intro e he
    cases item with
    | error e' =>
      cases e' with
      | line number fault =>
        rcases List.mem_cons.mp he with heq | he
        · cases heq
          exact ⟨number, fault, rfl⟩
        · exact ih hless hok e he
      | _ => cases hok
    | ok msg =>
      rcases List.mem_cons.mp he with heq | he
      · cases heq
      cases hpart : binaryMessage c msg with
      | ok s =>
        simp only [hpart] at hok
        exact ih hless hok e he
      | error e' =>
        simp only [hpart] at hok
        exact ih hless hok e he

/-! ### Whole recordings -/

/-- The text of commands, one after the other. -/
def commandTexts (cmds : List Command) : List (List Char) :=
  cmds.map fun cmd => cmd.render ++ ['\n']

theorem flatten_commandLines (cmds : List Command) :
    (TextReader.commandLines cmds).flatten = ((commandTexts cmds).map Utf8.encode).flatten := by
  induction cmds with
  | nil => rfl
  | cons cmd cmds ih =>
    rw [TextReader.commandLines_cons, List.flatten_append, ih, ← cmd.encode_render]
    rfl

variable {version : String} {decls : List MessageDecl} {m : Metadata} {msgs : List Message}
  {frames : List Bytes}

/-- A binary recording is converted to its metadata and the texts of its messages. Its malformed
frames are skipped, and so are the bytes behind the last complete one. -/
theorem toTextRecording_of_ofBytes {s : Bytes} {r : BinaryReader}
    (hopen : BinaryReader.ofBytes s = .ok (m, r)) {texts : List (List Char)}
    (htexts : List.Forall₂ (fun msg text => textMessage c msg = .ok text)
      (results (c.decodeAll r.left)) texts) :
    toTextRecording c s
      = .ok ⟨Utf8.encode (textHeader m) ++ (texts.map Utf8.encode).flatten,
        .ok ⟨texts.length, errorCount (c.decodeAll r.left)
          + errorCount (BinaryReader.leftover (splitFrames r.left).2)⟩⟩ := by
  obtain ⟨hdone, json, hs, -⟩ := BinaryReader.ofBytes_eq_ok hopen
  have hyields := BinaryReader.yields_frames (c := c) hdone
  have hlength : r.left.length ≤ s.length := by
    rw [hs, List.length_append]
    exact Nat.le_add_left _ _
  have hfuel := Nat.le_trans (BinaryReader.length_items_le (c := c) r.left) hlength
  have hresults : List.Forall₂ (fun msg text => textMessage c msg = .ok text)
      (results (c.decodeAll r.left ++ BinaryReader.leftover (splitFrames r.left).2)) texts := by
    rwa [results_append, BinaryReader.results_leftover, List.append_nil]
  simp only [toTextRecording, hopen, bind, Except.bind,
    convertFrames_of_yields hresults hyields (Nat.lt_add_right 1 (Nat.lt_succ_of_le hfuel)),
    List.reverse_append, List.reverse_reverse, List.reverse_singleton, List.singleton_append,
    List.flatten_cons, Nat.zero_add, errorCount_append]

/-- A text recording is converted to its metadata and the frames of its messages that can be
written. The others are skipped, and so are the errors of its lines. -/
theorem toBinaryRecording_of_ofBytes {s header : Bytes} {r : TextReader}
    (hopen : TextReader.ofBytes s = .ok (m, r)) (hheader : binaryHeader m = .ok header)
    {items : List (Except RecordingError Message)}
    (hitems : Yields (TextReader.next c options) r items)
    (hlines : ∀ e, .error e ∈ items → e.IsLine)
    (hframes : List.Forall₂ (fun msg s => c.encode msg = .ok s) (c.accepted items) frames) :
    toBinaryRecording c options s
      = .ok ⟨header ++ frames.flatten, .ok ⟨frames.length, items.length - frames.length⟩⟩ := by
  have hfuel := TextReader.length_items_le_of_ofBytes hopen hitems
  simp only [toBinaryRecording, hopen, bind, Except.bind, hheader,
    convertCommands_of_yields hlines hframes hitems (Nat.lt_succ_of_le hfuel), List.reverse_append,
    List.reverse_reverse, List.reverse_singleton, List.singleton_append, List.flatten_cons,
    Nat.zero_add]

/-- A recording of frames is converted to the texts of their messages. -/
theorem toTextRecording_of_encode (hc : Catalogue.ofDecls version decls = .ok c)
    (hshort : m.encode.length ≤ 0xffff)
    (hframes : List.Forall₂ (fun msg s => c.encode msg = .ok s) msgs frames)
    (hbool : ∀ msg ∈ msgs, c.HoldsBools msg) {texts : List (List Char)}
    (htexts : List.Forall₂ (fun msg text => textMessage c msg = .ok text) msgs texts) :
    toTextRecording c
        (magic ++ ByteWidth.two.put m.encode.length ++ m.encode ++ frames.flatten)
      = .ok ⟨Utf8.encode (textHeader m) ++ (texts.map Utf8.encode).flatten,
        .ok ⟨msgs.length, 0⟩⟩ := by
  obtain ⟨hall, hrest⟩ := BinaryReader.decodeAll_of_encode hc hframes hbool
  have hleft : BinaryReader.left ⟨.empty, [frames.flatten], false⟩ = frames.flatten :=
    List.append_nil _
  have hopen := BinaryReader.ofBytes_append hshort frames.flatten
  have htext := @toTextRecording_of_ofBytes c m _ _ hopen texts (by
    rwa [hleft, hall, results_map_ok])
  rw [hleft, hall, hrest, errorCount_map_ok, ← htexts.length_eq] at htext
  exact htext

/-- A text of commands is converted to the frames of their messages. -/
theorem toBinaryRecording_of_commands (hshort : m.encode.length ≤ 0xffff)
    (hkeys : ∀ entry ∈ m.entries, IsLineKey entry.1) {cmds : List Command}
    (hcmds : List.Forall₂ (fun cmd msg => cmd.Writable ∧ c.ofCommand options cmd = .ok msg)
      cmds msgs)
    (hframes : List.Forall₂ (fun msg s => c.encode msg = .ok s) msgs frames) :
    toBinaryRecording c options
        (Utf8.encode (textHeader m) ++ (TextReader.commandLines cmds).flatten)
      = .ok ⟨magic ++ ByteWidth.two.put m.encode.length ++ m.encode ++ frames.flatten,
        .ok ⟨msgs.length, 0⟩⟩ := by
  obtain ⟨r, hopen, hyields⟩ := TextReader.exists_yields_of_written hkeys hcmds
  have hlines : ∀ e, .error e ∈ msgs.map (.ok : Message → Except RecordingError Message) →
      e.IsLine := by
    intro e he
    obtain ⟨msg, -, hmsg⟩ := List.mem_map.mp he
    cases hmsg
  have hframes' := hframes
  rw [← Catalogue.accepted_map_ok hframes] at hframes'
  rw [toBinaryRecording_of_ofBytes hopen (binaryHeader_eq hshort) hyields hlines hframes',
    List.length_map, ← hframes.length_eq, Nat.sub_self]

/-! ### Sessions on files -/

namespace CommandLine

/-- Files by their paths. -/
abbrev Files := String → Option Bytes

namespace Files

/-- The content of a file. -/
def read (path : String) : StateM Files (Option Bytes) := do
  let files ← get
  return files path

/-- Writes a file, in place of an earlier one. -/
def write (path : String) (content : Bytes) : StateM Files Bool := do
  modify fun files => Function.update files path (some content)
  return true

end Files

namespace Session

/-- Carries a session out on files. -/
def runOn (s : Session) (files : Files) : Outcome × Files :=
  ((s.run Files.read Files.write).run files).run

@[simp]
theorem runOn_read (path : String) (next : Option Bytes → Session) (files : Files) :
    (Session.read path next).runOn files = (next (files path)).runOn files :=
  rfl

@[simp]
theorem runOn_write (path : String) (content : Bytes) (next : Bool → Session) (files : Files) :
    (Session.write path content next).runOn files
      = (next true).runOn (Function.update files path (some content)) :=
  rfl

@[simp]
theorem runOn_done (o : Outcome) (files : Files) : (Session.done o).runOn files = (o, files) :=
  rfl

variable {schema input output : String} {files : Files} {s text : Bytes} {n : ConversionCount}

theorem runOn_decode (hinput : files input = some s)
    (h : toTextRecording c s = .ok ⟨text, .ok n⟩) :
    (ofTask schema options c (.decode input (some output))).runOn files
      = (⟨0, [], conversionReport n⟩, Function.update files output (some text)) := by
  simp [ofTask, hinput, h, writeConversion, afterConversion, succeeded]

theorem runOn_encode (hinput : files input = some text)
    (h : toBinaryRecording c options text = .ok ⟨s, .ok n⟩) :
    (ofTask schema options c (.encode input output)).runOn files
      = (⟨0, [], conversionReport n⟩, Function.update files output (some s)) := by
  simp [ofTask, hinput, h, writeConversion, afterConversion, succeeded]

/-- A recording of messages that can be written, with truth values and named flags, is converted to
text and back to the same bytes, and no message is skipped: by the conversions themselves, and by
the sessions that read and write files. No session writes to the file that it reads from. -/
theorem run_encode_run_decode (hc : Catalogue.ofDecls version decls = .ok c) (hsafe : c.TextSafe)
    (options : CommandOptions) (hshort : m.encode.length ≤ 0xffff)
    (hkeys : ∀ entry ∈ m.entries, IsLineKey entry.1)
    (hmsgs : ∀ msg ∈ msgs, (∃ frame, c.encode msg = .ok frame) ∧ c.HoldsBools msg ∧
      c.HoldsNamedFlags msg) :
    let recording := ((BinaryWriter.empty.writeHeader m).2.writeMessages c msgs).2.output
    ∃ text, toTextRecording c recording = .ok ⟨text, .ok ⟨msgs.length, 0⟩⟩ ∧
      toBinaryRecording c options text = .ok ⟨recording, .ok ⟨msgs.length, 0⟩⟩ ∧
      ∀ (schema input middle output : String) (files : Files), input ≠ middle → middle ≠ output →
        files input = some recording →
        let decoded := (ofTask schema options c (.decode input (some middle))).runOn files
        let encoded := (ofTask schema options c (.encode middle output)).runOn decoded.2
        decoded.1 = ⟨0, [], conversionReport ⟨msgs.length, 0⟩⟩ ∧ decoded.2 middle = some text ∧
          encoded.1 = ⟨0, [], conversionReport ⟨msgs.length, 0⟩⟩ ∧
          encoded.2 output = some recording := by
  intro recording
  obtain ⟨frames, hframes⟩ := exists_forall₂ fun msg hmsg => (hmsgs msg hmsg).1
  obtain ⟨cmds, hcmds⟩ : ∃ cmds, List.Forall₂ (fun msg cmd => c.toCommand msg = .ok cmd ∧
      cmd.Writable ∧ c.ofCommand options cmd = .ok msg) msgs cmds := by
    refine exists_forall₂ fun msg hmsg => ?_
    obtain ⟨⟨frame, hframe⟩, hbool, hflags⟩ := hmsgs msg hmsg
    exact Catalogue.ofCommand_toCommand_of_encode hc hsafe options hframe hbool hflags
  have hrecording : recording
      = magic ++ ByteWidth.two.put m.encode.length ++ m.encode ++ frames.flatten := by
    show ((BinaryWriter.empty.writeHeader m).2.writeMessages c msgs).2.output = _
    rw [BinaryWriter.writeMessages_of_encode _ hframes, BinaryWriter.writeHeader_empty hshort]
  have htexts : List.Forall₂ (fun msg text => textMessage c msg = .ok text) msgs
      (commandTexts cmds) := by
    rw [commandTexts, List.forall₂_map_right_iff]
    refine hcmds.imp fun msg cmd hcmd => ?_
    rw [textMessage, hcmd.1]
  have hwritten : List.Forall₂ (fun cmd msg => cmd.Writable ∧ c.ofCommand options cmd = .ok msg)
      cmds msgs := (hcmds.imp fun _ _ hcmd => hcmd.2).flip
  have htext := toTextRecording_of_encode hc hshort hframes (fun msg hmsg => (hmsgs msg hmsg).2.1)
    htexts
  have hback := toBinaryRecording_of_commands hshort hkeys hwritten hframes
  rw [← hrecording, ← flatten_commandLines] at htext
  rw [← hrecording] at hback
  refine ⟨_, htext, hback, ?_⟩
  intro schema input middle output files _ _ hinput decoded encoded
  have hdecoded : decoded = _ := runOn_decode hinput htext
  have hmiddle : decoded.2 middle
      = some (Utf8.encode (textHeader m) ++ (TextReader.commandLines cmds).flatten) := by
    rw [hdecoded]
    exact Function.update_self ..
  have hencoded : encoded = _ := runOn_encode hmiddle hback
  refine ⟨by rw [hdecoded], hmiddle, by rw [hencoded], ?_⟩
  rw [hencoded]
  exact Function.update_self ..

/-- Two strokes, the first with records, so that it takes a block of lines. -/
def paintMessages : List Message :=
  [⟨7, 2, [.int 3, .int 0x80ff0010, .records [[-2, 9], [1, 2]]]⟩,
    ⟨8, 2, [.int 0, .int 0, .records []]⟩]

/-- A recording of them, with one metadata text. -/
def paintRecording : Bytes :=
  [0x44, 0x50, 0x52, 0x45, 0x43, 0, 0, 9, 0x7b, 0x22, 0x76, 0x22, 0x3a, 0x22, 0x31, 0x22, 0x7d,
    0, 11, 2, 7, 3, 0x80, 0xff, 0, 0x10, 0xff, 0xfe, 9, 0, 1, 2, 0, 5, 2, 8, 0, 0, 0, 0, 0]

theorem holds_paintMessages :
    ∀ msg ∈ paintMessages, (∃ frame, Catalogue.paintCatalogue.encode msg = .ok frame) ∧
      Catalogue.paintCatalogue.HoldsBools msg ∧ Catalogue.paintCatalogue.HoldsNamedFlags msg := by
  have hpaint : ∀ (userId : UInt8) (mode : ℕ) (color : ℤ) (dabs : List (List ℤ)), mode < 2 ^ 2 →
      Catalogue.paintCatalogue.HoldsBools ⟨userId, 2, [.int mode, .int color, .records dabs]⟩ ∧
        Catalogue.paintCatalogue.HoldsNamedFlags
          ⟨userId, 2, [.int mode, .int color, .records dabs]⟩ := by
    intro userId mode color dabs hmode
    constructor
    · intro m hm
      cases hm
      intro p hp format hkind
      rcases List.mem_cons.mp hp with rfl | hp
      · cases hkind
      rcases List.mem_cons.mp hp with rfl | hp
      · cases hkind
      rw [List.mem_singleton.mp hp] at hkind
      cases hkind
    · intro m hm
      cases hm
      intro p hp names width n hkind hn i hi
      rcases List.mem_cons.mp hp with rfl | hp
      · cases hkind
        cases hn
        exact lt_of_hasBit hmode hi
      rcases List.mem_cons.mp hp with rfl | hp
      · cases hkind
      rw [List.mem_singleton.mp hp] at hkind
      cases hkind
  intro msg hmsg
  rcases List.mem_cons.mp hmsg with rfl | hmsg
  · exact ⟨⟨_, rfl⟩, hpaint 7 3 0x80ff0010 [[-2, 9], [1, 2]] (by decide)⟩
  · rw [List.mem_singleton.mp hmsg]
    exact ⟨⟨_, rfl⟩, hpaint 8 0 0 [] (by decide)⟩

theorem run_encode_run_decode_paint :
    ∃ text, toTextRecording Catalogue.paintCatalogue paintRecording = .ok ⟨text, .ok ⟨2, 0⟩⟩ ∧
      toBinaryRecording Catalogue.paintCatalogue {} text = .ok ⟨paintRecording, .ok ⟨2, 0⟩⟩ ∧
      let files : Files := fun path => if path = "first" then some paintRecording else none
      let decoded := (ofTask "schema" {} Catalogue.paintCatalogue
        (.decode "first" (some "text"))).runOn files
      let encoded := (ofTask "schema" {} Catalogue.paintCatalogue
        (.encode "text" "second")).runOn decoded.2
      decoded.1 = ⟨0, [], conversionReport ⟨2, 0⟩⟩ ∧ decoded.2 "text" = some text ∧
        encoded.1 = ⟨0, [], conversionReport ⟨2, 0⟩⟩ ∧
        encoded.2 "second" = some paintRecording := by
  have hshort : (Metadata.ofPairs [("v", "1")]).encode.length ≤ 0xffff := by decide
  have hkeys : ∀ entry ∈ (Metadata.ofPairs [("v", "1")]).entries, IsLineKey entry.1 := by
    intro entry hentry
    rw [List.mem_singleton.mp hentry]
    exact ⟨by decide, by decide, by decide⟩
  have hrecording : ((BinaryWriter.empty.writeHeader (.ofPairs [("v", "1")])).2.writeMessages
      Catalogue.paintCatalogue paintMessages).2.output = paintRecording := by cbv
  obtain ⟨text, htext, hback, hfiles⟩ := run_encode_run_decode Catalogue.ofDecls_paintDecls
    Catalogue.textSafe_paintCatalogue {} hshort hkeys holds_paintMessages
  rw [hrecording] at htext hback hfiles
  exact ⟨text, htext, hback, hfiles "schema" "first" "text" "second" _ (by decide) (by decide) rfl⟩

end Session

end CommandLine

end WireSchema
