import Mathlib
import WireSchema.Proofs.Command.Typing
import WireSchema.Proofs.Recording.Convert

/-!
# What a conversion skips

The input of a conversion may hold anything, and a conversion goes on behind whatever cannot be read
or written. From text to binary, what is written is a proper recording of exactly the messages that
could be read and written: what is read from text matches its fields, so that it is read back from
its frame. From binary to text, every message that is read has a text form, so that only frames that
cannot be read are skipped, and bytes behind the last complete frame.

* `toBinaryRecording_eq_ok` — a conversion from text that comes to its end;
* `Session.run_encode_yields` — what a session has written then;
* `Catalogue.exists_toCommand_of_decode` — decoded messages have a text form;
* `TextReader.yields_of_decodeAll` — and are read back from it, up to flags without a name;
* `Session.run_decode_yields` — what a session writes for any binary recording.
-/

namespace WireSchema

variable {version : String} {decls : List MessageDecl} {c : Catalogue} {options : CommandOptions}
  {m : Metadata}

/-! ### From text to binary -/

/-- A conversion from text that comes to its end has opened the text, could write its metadata, and
has met only errors of lines. -/
theorem toBinaryRecording_eq_ok {s out : Bytes} {n : ConversionCount}
    (h : toBinaryRecording c options s = .ok ⟨out, .ok n⟩) :
    ∃ m r items header, TextReader.ofBytes s = .ok (m, r) ∧
      Yields (TextReader.next c options) r items ∧ (∀ e, .error e ∈ items → e.IsLine) ∧
      binaryHeader m = .ok header := by
  rw [toBinaryRecording, bind_eq_ok] at h
  obtain ⟨⟨m, r⟩, hopen, h⟩ := h
  simp only at h
  split at h
  · cases h
  rename_i header hheader
  obtain ⟨items, hitems, -⟩ := r.exists_yields c options
  have hfuel := TextReader.length_items_le_of_ofBytes hopen hitems
  have hresult : (convertCommands c options (s.length + 2) [header] {} r).2 = .ok n :=
    congrArg Conversion.result (Except.ok.inj h)
  exact ⟨m, r, items, header, hopen, hitems,
    isLine_of_convertCommands hitems (Nat.lt_succ_of_le hfuel) hresult, hheader⟩

/-- The messages of a text recording hold truth values where the value model has them. -/
theorem holdsBools_of_yields (hc : Catalogue.ofDecls version decls = .ok c) {r : TextReader}
    {items : List (Except RecordingError Message)}
    (hitems : Yields (TextReader.next c options) r items) :
    ∀ msg ∈ results items, c.HoldsBools msg := by
  have hstep : ∀ r item r', TextReader.next c options r = (some item, r') →
      ∀ msg, item = .ok msg → c.HoldsBools msg := by
    rintro r item r' hnext msg rfl
    obtain ⟨cmd, hcmd⟩ := TextReader.exists_command_of_next hnext
    exact Catalogue.holdsBools_of_ofCommand hc hcmd
  exact fun msg hmsg => hitems.forall_mem hstep _ (mem_results.mp hmsg) msg rfl

theorem exists_frames_of_accepted (c : Catalogue) (items : List (Except RecordingError Message)) :
    ∃ frames, List.Forall₂ (fun msg s => c.encode msg = .ok s) (c.accepted items) frames := by
  refine exists_forall₂ fun msg hmsg => ?_
  have hok : (c.encode msg).isOk = true := (List.mem_filter.mp hmsg).2
  cases hencode : c.encode msg with
  | ok s => exact ⟨s, rfl⟩
  | error e =>
    rw [hencode] at hok
    cases hok

namespace CommandLine.Session

variable {schema input output : String} {files : Files} {s : Bytes}

/-- A session fails after a conversion that has not come to its end. -/
theorem exitCode_afterConversion_ne_zero (out stdout : Bytes) (e : RecordingError) (files : Files) :
    ((afterConversion ⟨out, .error e⟩ stdout).runOn files).1.exitCode ≠ 0 := by
  unfold afterConversion
  split <;> rename_i hresult
  · cases hresult
  · exact (by decide : (101 : UInt8) ≠ 0)
  · exact (by decide : (1 : UInt8) ≠ 0)

/-- A session that converts from text and succeeds has read its input, and the conversion came to
its end. -/
theorem toBinaryRecording_of_runOn
    (h : ((ofTask schema options c (.encode input output)).runOn files).1.exitCode = 0) :
    ∃ s out n, files input = some s ∧
      toBinaryRecording c options s = .ok ⟨out, .ok n⟩ := by
  unfold ofTask at h
  rw [runOn_read] at h
  cases hinput : files input with
  | none =>
    rw [hinput] at h
    cases h
  | some s =>
    rw [hinput, Option.map_some] at h
    cases hconversion : toBinaryRecording c options s with
    | error e =>
      rw [hconversion] at h
      cases h
    | ok conversion =>
      obtain ⟨out, result⟩ := conversion
      cases result with
      | error e =>
        rw [hconversion] at h
        exact absurd h (exitCode_afterConversion_ne_zero out [] e _)
      | ok n => exact ⟨s, out, n, rfl, hconversion⟩

/-- Whatever the input of a session that converts from text holds: if the session succeeds, it has
written a recording with the metadata of the text, and the messages in it are those of the text that
can be written, in order. All other items are counted, and nothing is written for them. The session
does not write to the file that it reads from. -/
theorem run_encode_yields (hc : Catalogue.ofDecls version decls = .ok c) (options : CommandOptions)
    (_ : input ≠ output)
    (h : ((ofTask schema options c (.encode input output)).runOn files).1.exitCode = 0) :
    ∃ s m r items header frames, files input = some s ∧ TextReader.ofBytes s = .ok (m, r) ∧
      Yields (TextReader.next c options) r items ∧ (∀ e, .error e ∈ items → e.IsLine) ∧
      binaryHeader m = .ok header ∧
      List.Forall₂ (fun msg frame => c.encode msg = .ok frame) (c.accepted items) frames ∧
      let count : ConversionCount :=
        ⟨(c.accepted items).length, items.length - (c.accepted items).length⟩
      toBinaryRecording c options s = .ok ⟨header ++ frames.flatten, .ok count⟩ ∧
      (ofTask schema options c (.encode input output)).runOn files
        = (⟨0, [], conversionReport count⟩,
          Function.update files output (some (header ++ frames.flatten))) ∧
      ∃ r', BinaryReader.ofBytes (header ++ frames.flatten) = .ok (m, r') ∧
        ∀ pieces, pieces.flatten = r'.input.flatten →
          Yields (BinaryReader.next c) { r' with input := pieces }
            ((c.accepted items).map .ok) := by
  obtain ⟨s, out, n, hinput, hconversion⟩ := toBinaryRecording_of_runOn h
  obtain ⟨m, r, items, header, hopen, hitems, hlines, hheader⟩ :=
    toBinaryRecording_eq_ok hconversion
  obtain ⟨frames, hframes⟩ := exists_frames_of_accepted c items
  have hwritten := toBinaryRecording_of_ofBytes hopen hheader hitems hlines hframes
  rw [← hframes.length_eq] at hwritten
  obtain ⟨hshort, hheaderBytes⟩ := binaryHeader_eq_ok hheader
  have hbool : ∀ msg ∈ c.accepted items, c.HoldsBools msg :=
    fun msg hmsg => holdsBools_of_yields hc hitems msg (List.mem_of_mem_filter hmsg)
  refine ⟨s, m, r, items, header, frames, hinput, hopen, hitems, hlines, hheader, hframes,
    hwritten, runOn_encode hinput hwritten, ⟨.empty, [frames.flatten], false⟩, ?_, ?_⟩
  · rw [hheaderBytes, BinaryReader.ofBytes_append hshort]
  · intro pieces hpieces
    refine BinaryReader.yields_of_encode hc hframes hbool rfl ?_
    rw [BinaryReader.left, hpieces]
    show [] ++ (frames.flatten ++ []) = frames.flatten
    rw [List.nil_append, List.append_nil]

/-- Metadata, a message that can be written, a line that is no command, and a message that is too
long. -/
def labelLines : List Bytes :=
  ["!v=1\n", "5 label b=hi\n", "x\n", "7 label b=abc\n"].map fun line => Utf8.encode line.toList

/-- A reader of `labelLines` that has read the first lines. -/
def labelReader (n : ℕ) (done : Bool) (pending : Option (ℕ × Command)) : TextReader :=
  ⟨labelLines.drop n, {}, n, done, pending⟩

/-- The items of `labelLines`. -/
def labelItems : List (Except RecordingError Message) :=
  [.ok ⟨5, 1, [.bytes [], .text "hi"]⟩, .error (.line 3 (.malformed (.expectedCommand "x"))),
    .ok ⟨7, 1, [.bytes [], .text "abc"]⟩]

theorem ofBytes_labelLines :
    TextReader.ofBytes labelLines.flatten
      = .ok (.ofPairs [("v", "1")],
        labelReader 2 false (some (2, ⟨5, "label", [("b", "hi")], []⟩))) := by
  have hlines : byteLines labelLines.flatten = labelLines := by decide +kernel
  have hmetadata : (labelReader 0 false none).readLine
      = (.found (.metadata "v" "1"), labelReader 1 false none) := by cbv
  have hcommand : (labelReader 1 false none).readLine
      = (.found (.command ⟨5, "label", [("b", "hi")], []⟩), labelReader 2 false none) := by cbv
  have hread : TextReader.readCommand .empty (labelReader 0 false none)
      = (.ok (some ⟨5, "label", [("b", "hi")], []⟩), .ofPairs [("v", "1")],
        labelReader 2 false none) := by
    rw [TextReader.readCommand_eq, hmetadata]
    show TextReader.readCommand _ _ = _
    rw [TextReader.readCommand_eq, hcommand]
    rfl
  have hopened : ({ lines := labelLines } : TextReader) = labelReader 0 false none := rfl
  unfold TextReader.ofBytes
  rw [hlines, hopened, hread]
  rfl

theorem yields_labelLines :
    Yields (TextReader.next Catalogue.labelCatalogue {})
      (labelReader 2 false (some (2, ⟨5, "label", [("b", "hi")], []⟩))) labelItems := by
  have hfirst : TextReader.next Catalogue.labelCatalogue {}
      (labelReader 2 false (some (2, ⟨5, "label", [("b", "hi")], []⟩)))
        = (some (.ok ⟨5, 1, [.bytes [], .text "hi"]⟩), labelReader 2 false none) := by cbv
  have hmalformed : (labelReader 2 false none).readLine
      = (.failed (.line 3 (.malformed (.expectedCommand "x"))), labelReader 3 false none) := by cbv
  have hcommand : (labelReader 3 false none).readLine
      = (.found (.command ⟨7, "label", [("b", "abc")], []⟩), labelReader 4 false none) := by cbv
  have hend : (labelReader 4 false none).readLine = (.atEnd, labelReader 4 true none) := by cbv
  have hof : Catalogue.labelCatalogue.ofCommand {} ⟨7, "label", [("b", "abc")], []⟩
      = .ok ⟨7, 1, [.bytes [], .text "abc"]⟩ := by cbv
  have hsecond : TextReader.readCommand .empty (labelReader 2 false none)
      = (.error (.line 3 (.malformed (.expectedCommand "x"))), .empty,
        labelReader 3 false none) := by
    rw [TextReader.readCommand_eq, hmalformed]
  have hthird : TextReader.readCommand .empty (labelReader 3 false none)
      = (.ok (some ⟨7, "label", [("b", "abc")], []⟩), .empty, labelReader 4 false none) := by
    rw [TextReader.readCommand_eq, hcommand]
  have hlast : TextReader.readCommand .empty (labelReader 4 false none)
      = (.ok none, .empty, labelReader 4 true none) := by
    rw [TextReader.readCommand_eq, hend]
  refine .item hfirst (.item (TextReader.next_of_readCommand rfl hsecond) (.item
    ((TextReader.next_of_readCommand rfl hthird).trans ?_) (.atEnd
      (TextReader.next_of_readCommand rfl hlast) (TextReader.next_of_done rfl rfl))))
  rw [TextReader.answer, hof]

theorem run_encode_yields_label :
    let files : Files := fun path => if path = "text" then some labelLines.flatten else none
    let run := (ofTask "schema" {} Catalogue.labelCatalogue (.encode "text" "out")).runOn files
    run.1.exitCode = 0 ∧ ∃ out r',
      toBinaryRecording Catalogue.labelCatalogue {} labelLines.flatten = .ok ⟨out, .ok ⟨1, 2⟩⟩ ∧
      run = (⟨0, [], conversionReport ⟨1, 2⟩⟩, Function.update files "out" (some out)) ∧
      BinaryReader.ofBytes out = .ok (.ofPairs [("v", "1")], r') ∧
      Yields (BinaryReader.next Catalogue.labelCatalogue) r'
        [.ok ⟨5, 1, [.bytes [], .text "hi"]⟩] := by
  intro files run
  have hlines : ∀ e, .error e ∈ labelItems → e.IsLine := by
    intro e he
    simp only [labelItems, List.mem_cons, reduceCtorEq, Except.error.injEq, List.not_mem_nil,
      or_false, false_or] at he
    exact ⟨_, _, he⟩
  have haccepted : Catalogue.labelCatalogue.accepted labelItems
      = [⟨5, 1, [.bytes [], .text "hi"]⟩] := by decide
  have hframes : List.Forall₂ (fun msg s => Catalogue.labelCatalogue.encode msg = .ok s)
      (Catalogue.labelCatalogue.accepted labelItems) [[0, 3, 1, 5, 0, 0x68, 0x69]] := by
    rw [haccepted]
    exact .cons (by decide) .nil
  have hinput : files "text" = some labelLines.flatten := rfl
  have hexit : run.1.exitCode = 0 := by
    have hwritten := toBinaryRecording_of_ofBytes ofBytes_labelLines (binaryHeader_eq (by decide))
      yields_labelLines hlines hframes
    rw [show run = _ from runOn_encode hinput hwritten]
  obtain ⟨s, m, r, items, header, frames, hs, hopen, hitems, -, -, -, hcount, hrun, r', hopen',
    hread⟩ := run_encode_yields Catalogue.ofDecls_labelDecls {} (by decide) hexit
  cases hinput.symm.trans hs
  cases ofBytes_labelLines.symm.trans hopen
  rw [hitems.unique yields_labelLines, haccepted] at hcount hrun hread
  exact ⟨hexit, _, r', hcount, hrun, hopen', hread r'.input rfl⟩

end CommandLine.Session

/-! ### From binary to text -/

/-- A decoded message has a text form. -/
theorem Catalogue.exists_toCommand_of_decode (hc : ofDecls version decls = .ok c) {s : Bytes}
    {msg : Message} (h : c.decode s = .ok msg) : ∃ cmd, c.toCommand msg = .ok cmd := by
  obtain ⟨m, hmem, hm, -, hmatches⟩ := matches_of_decode hc h
  exact ⟨_, toCommand_of_accepts (wellFormed_of_mem hc hmem) hm (hmatches.imp fun _ _ => Or.inl)⟩

/-- A decoded message is read back from its text form, without the bits of flags that have no
name. -/
theorem Catalogue.writable_of_decode (hc : ofDecls version decls = .ok c) (hsafe : c.TextSafe)
    (options : CommandOptions) {s : Bytes} {msg : Message} {cmd : Command}
    (h : c.decode s = .ok msg) (hcmd : c.toCommand msg = .ok cmd) :
    cmd.Writable ∧ c.ofCommand options cmd = .ok (c.clearUndeclared msg) := by
  obtain ⟨m, hmem, hm, -, hmatches⟩ := matches_of_decode hc h
  obtain ⟨cmd', hcmd', hback⟩ := ofCommand_toCommand_of_matches hc hsafe options hmem hm hmatches
  cases hcmd.symm.trans hcmd'
  exact hback

/-- The messages of a byte string are read from its frames. -/
theorem Catalogue.exists_decode_of_mem {s : Bytes} {msg : Message}
    (h : msg ∈ results (c.decodeAll s)) : ∃ frame, c.decode frame = .ok msg := by
  obtain ⟨frame, -, hframe⟩ := List.mem_map.mp (mem_results.mp h)
  exact ⟨_, hframe⟩

theorem textMessage_of_toCommand {msg : Message} {cmd : Command} (h : c.toCommand msg = .ok cmd) :
    textMessage c msg = .ok (cmd.render ++ ['\n']) := by
  rw [textMessage, h]

/-- No message of a byte string stops its conversion to text. -/
theorem Catalogue.exists_commands_of_decodeAll (hc : ofDecls version decls = .ok c) (s : Bytes) :
    ∃ cmds, List.Forall₂ (fun msg cmd => c.toCommand msg = .ok cmd) (results (c.decodeAll s))
      cmds := by
  refine exists_forall₂ fun msg hmsg => ?_
  obtain ⟨frame, hframe⟩ := exists_decode_of_mem hmsg
  exact exists_toCommand_of_decode hc hframe

/-- The text of the messages of a byte string is opened with its metadata and gives the messages
again, without the bits of flags that have no name. -/
theorem TextReader.yields_of_decodeAll (hc : Catalogue.ofDecls version decls = .ok c)
    (hsafe : c.TextSafe) (hkeys : ∀ entry ∈ m.entries, IsLineKey entry.1)
    (options : CommandOptions) {s : Bytes} {cmds : List Command}
    (hcmds : List.Forall₂ (fun msg cmd => c.toCommand msg = .ok cmd) (results (c.decodeAll s))
      cmds) :
    ∃ r, ofBytes (Utf8.encode (textHeader m ++ (commandTexts cmds).flatten)) = .ok (m, r) ∧
      Yields (next c options) r
        ((results (c.decodeAll s)).map fun msg => .ok (c.clearUndeclared msg)) := by
  have hwritten : List.Forall₂ (fun cmd msg => cmd.Writable ∧ c.ofCommand options cmd = .ok msg)
      cmds ((results (c.decodeAll s)).map c.clearUndeclared) := by
    rw [List.forall₂_map_right_iff]
    refine List.forall₂_iff_zip.mpr ⟨hcmds.length_eq.symm, fun hp => ?_⟩
    obtain ⟨frame, hframe⟩ := Catalogue.exists_decode_of_mem (List.of_mem_zip hp).2
    exact Catalogue.writable_of_decode hc hsafe options hframe (List.forall₂_zip hcmds.flip hp)
  obtain ⟨r, hopen, hyields⟩ := exists_yields_of_written hkeys hwritten
  rw [flatten_commandLines, ← Utf8.encode_flatten, ← Utf8.encode_append] at hopen
  rw [List.map_map] at hyields
  exact ⟨r, hopen, hyields⟩

namespace CommandLine.Session

variable {schema input output : String} {files : Files} {s text : Bytes} {n : ConversionCount}

theorem runOn_decode_stdout (hinput : files input = some s)
    (h : toTextRecording c s = .ok ⟨text, .ok n⟩) :
    (ofTask schema options c (.decode input none)).runOn files
      = (⟨0, text, conversionReport n⟩, files) := by
  simp [ofTask, hinput, h, afterConversion, succeeded]

/-- Whatever bytes follow the header of a binary recording, a session that converts it succeeds. It
skips exactly the complete frames that cannot be read, and the bytes behind the last complete frame
if there are any, and writes the text of every message, in order, to another file or to the output
stream. If the names of the catalogue and the keys of the metadata can stand in a line, the text is
opened with the same metadata and gives the messages again, without the bits of flags that have no
name. -/
theorem run_decode_yields (hc : Catalogue.ofDecls version decls = .ok c) {r : BinaryReader}
    (hopen : BinaryReader.ofBytes s = .ok (m, r)) :
    let msgs := results (c.decodeAll r.left)
    let skipped := errorCount (c.decodeAll r.left) + if (splitFrames r.left).2 = [] then 0 else 1
    (∃ json, s = magic ++ ByteWidth.two.put json.length ++ json ++ r.left ∧
      Metadata.decode? json = some m) ∧
    ∃ cmds, List.Forall₂ (fun msg cmd => c.toCommand msg = .ok cmd) msgs cmds ∧
      let text := Utf8.encode (textHeader m ++ (commandTexts cmds).flatten)
      toTextRecording c s = .ok ⟨text, .ok ⟨msgs.length, skipped⟩⟩ ∧
      (∀ (schema input : String) (options : CommandOptions) (files : Files),
        files input = some s →
          (∀ output, input ≠ output →
            (ofTask schema options c (.decode input (some output))).runOn files
              = (⟨0, [], conversionReport ⟨msgs.length, skipped⟩⟩,
                Function.update files output (some text))) ∧
          (ofTask schema options c (.decode input none)).runOn files
            = (⟨0, text, conversionReport ⟨msgs.length, skipped⟩⟩, files)) ∧
      (c.TextSafe → (∀ entry ∈ m.entries, IsLineKey entry.1) → ∀ options : CommandOptions,
        ∃ r', TextReader.ofBytes text = .ok (m, r') ∧
          Yields (TextReader.next c options) r'
            (msgs.map fun msg => .ok (c.clearUndeclared msg))) := by
  intro msgs skipped
  obtain ⟨cmds, hcmds⟩ := Catalogue.exists_commands_of_decodeAll hc r.left
  have htexts : List.Forall₂ (fun msg text => textMessage c msg = .ok text) msgs
      (commandTexts cmds) := by
    rw [commandTexts, List.forall₂_map_right_iff]
    exact hcmds.imp fun _ _ => textMessage_of_toCommand
  have htext := toTextRecording_of_ofBytes hopen htexts
  rw [← Utf8.encode_flatten, ← Utf8.encode_append, BinaryReader.errorCount_leftover,
    ← htexts.length_eq] at htext
  refine ⟨(BinaryReader.ofBytes_eq_ok hopen).2, cmds, hcmds, htext, ?_, ?_⟩
  · intro schema input options files hinput
    exact ⟨fun output _ => runOn_decode hinput htext, runOn_decode_stdout hinput htext⟩
  · intro hsafe hkeys options
    exact TextReader.yields_of_decodeAll hc hsafe hkeys options hcmds

/-- A frame with a flag that has no name, a frame of no type, and the start of a third one. -/
def torn : Bytes :=
  [0, 11, 2, 7, 5, 0x80, 0xff, 0, 0x10, 0xff, 0xfe, 9, 0, 1, 2, 0, 1, 9, 7, 0xff, 0, 5, 2]

/-- A recording of `torn`, with one metadata text. -/
def tornRecording : Bytes :=
  [0x44, 0x50, 0x52, 0x45, 0x43, 0, 0, 9, 0x7b, 0x22, 0x76, 0x22, 0x3a, 0x22, 0x31, 0x22, 0x7d]
    ++ torn

theorem splitFrames_torn :
    splitFrames torn = ([(⟨11, 2, 7⟩, [5, 0x80, 0xff, 0, 0x10, 0xff, 0xfe, 9, 0, 1, 2]),
      (⟨1, 9, 7⟩, [0xff])], [0, 5, 2]) := by
  have hfirst : splitFrame? torn
      = some ((⟨11, 2, 7⟩, [5, 0x80, 0xff, 0, 0x10, 0xff, 0xfe, 9, 0, 1, 2]),
        [0, 1, 9, 7, 0xff, 0, 5, 2]) := by decide
  have hsecond : splitFrame? [0, 1, 9, 7, 0xff, 0, 5, 2]
      = some ((⟨1, 9, 7⟩, [0xff]), [0, 5, 2]) := by decide
  have hlast : splitFrame? [0, 5, 2] = none := by decide
  rw [splitFrames_of_some hfirst, splitFrames_of_some hsecond, splitFrames_of_none hlast]

theorem decodeAll_torn :
    Catalogue.paintCatalogue.decodeAll torn
      = [.ok ⟨7, 2, [.int 5, .int 0x80ff0010, .records [[-2, 9], [1, 2]]]⟩,
        .error ⟨7, 9, 1, .unknownType⟩] := by
  rw [Catalogue.decodeAll, splitFrames_torn]
  cbv

theorem run_decode_yields_torn :
    ∃ cmd, Catalogue.paintCatalogue.toCommand
        ⟨7, 2, [.int 5, .int 0x80ff0010, .records [[-2, 9], [1, 2]]]⟩ = .ok cmd ∧
      let text := Utf8.encode (textHeader (.ofPairs [("v", "1")]) ++ (commandTexts [cmd]).flatten)
      let files : Files := fun path => if path = "torn" then some tornRecording else none
      toTextRecording Catalogue.paintCatalogue tornRecording = .ok ⟨text, .ok ⟨1, 2⟩⟩ ∧
      (ofTask "schema" {} Catalogue.paintCatalogue (.decode "torn" (some "text"))).runOn files
        = (⟨0, [], conversionReport ⟨1, 2⟩⟩, Function.update files "text" (some text)) ∧
      ∃ r, TextReader.ofBytes text = .ok (.ofPairs [("v", "1")], r) ∧
        Yields (TextReader.next Catalogue.paintCatalogue {}) r
          [.ok ⟨7, 2, [.int 1, .int 0x80ff0010, .records [[-2, 9], [1, 2]]]⟩] := by
  have hshort : (Metadata.ofPairs [("v", "1")]).encode.length ≤ 0xffff := by decide
  have hkeys : ∀ entry ∈ (Metadata.ofPairs [("v", "1")]).entries, IsLineKey entry.1 := by
    intro entry hentry
    rw [List.mem_singleton.mp hentry]
    exact ⟨by decide, by decide, by decide⟩
  have hopen : BinaryReader.ofBytes tornRecording
      = .ok (.ofPairs [("v", "1")], ⟨.empty, [torn], false⟩) :=
    BinaryReader.ofBytes_append hshort torn
  have hleft : BinaryReader.left ⟨.empty, [torn], false⟩ = torn := List.append_nil _
  obtain ⟨-, cmds, hcmds, hcount, hruns, hback⟩ :=
    run_decode_yields Catalogue.ofDecls_paintDecls hopen
  rw [hleft, decodeAll_torn, splitFrames_torn] at hcount hruns
  rw [hleft, decodeAll_torn] at hcmds hback
  obtain ⟨cmd, hcmd, rfl⟩ : ∃ cmd, Catalogue.paintCatalogue.toCommand
      ⟨7, 2, [.int 5, .int 0x80ff0010, .records [[-2, 9], [1, 2]]]⟩ = .ok cmd ∧ cmds = [cmd] := by
    cases hcmds with
    | cons hcmd hnil =>
      cases hnil
      exact ⟨_, hcmd, rfl⟩
  obtain ⟨r, hopened, hyields⟩ := hback Catalogue.textSafe_paintCatalogue hkeys {}
  exact ⟨cmd, hcmd, hcount, (hruns "schema" "torn" {} _ rfl).1 "text" (by decide), r, hopened,
    hyields⟩

end CommandLine.Session

end WireSchema
