import Mathlib
import WireSchema.Proofs.Recording.Lines

/-!
# The keys of metadata in a text recording

A metadata line holds its key as it is. What is read as a key has been cut off at the first equals
sign of a line and is trimmed, so a key with an equals sign, a line feed, or a blank at one of its
ends is not read back, whatever the line is read as. All other keys are, with any values.

* `LineReader.isLineKey_of_read` — the key of a metadata line;
* `TextReader.isLineKey_of_ofBytes` — the keys of a text recording that can be opened;
* `TextReader.ofBytes_textHeader_iff` — the metadata that is read back from its lines.
-/

namespace WireSchema

open WireSchema.Text

/-! ### Keys that are read -/

theorem isLineKey_of_readMetadataLine {line content : List Char} {key value : String}
    (hcontent : '\n' ∉ content) (h : readMetadataLine line content = .ok (key, value)) :
    IsLineKey key := by
  unfold readMetadataLine at h
  split at h
  · cases h
  rename_i before after hcut
  split at h
  · rename_i text htext
    cases h
    have hmem : ∀ c ∈ trim before, c ∈ content := by
      intro c hc
      rw [eq_of_cutAt hcut]
      exact List.mem_append_left _ (subset_trim before hc)
    rw [IsLineKey, String.toList_ofList]
    exact ⟨trim_trim before, fun hsep => not_mem_of_cutAt hcut (subset_trim before hsep),
      fun hfeed => hcontent (hmem _ hfeed)⟩
  · cases h

/-- A key that is read can stand in a metadata line. -/
theorem LineReader.isLineKey_of_read {r : LineReader} {line : List Char} {key value : String}
    (hline : '\n' ∉ line) (h : (r.read line).1 = .ok (.metadata key value)) : IsLineKey key := by
  cases hread : r.read line with
  | mk outcome r' =>
    rw [hread] at h
    subst h
    cases step_of_read hread with
    | metadata hmark hmetadata =>
      refine isLineKey_of_readMetadataLine (fun hfeed => hline ?_) hmetadata
      exact subset_trim line (hmark ▸ List.mem_cons_of_mem _ hfeed)

namespace TextReader

variable {c : Catalogue} {options : CommandOptions} {m m' : Metadata}

/-- The lines of a recording up to its first command add only keys that can stand in a metadata
line. -/
theorem isLineKey_of_opening {r : LineReader} {n : ℕ} {lines : List (List Char)}
    (hlines : ∀ line ∈ lines, '\n' ∉ line) (hm : ∀ entry ∈ m.entries, IsLineKey entry.1)
    (h : opening m r n lines = .ok m') : ∀ entry ∈ m'.entries, IsLineKey entry.1 := by
  induction lines generalizing m r n with
  | nil =>
    unfold opening at h
    split at h <;> cases h
    exact hm
  | cons line lines ih =>
    rw [List.forall_mem_cons] at hlines
    rw [opening] at h
    split at h
    · cases h
      exact hm
    · rename_i key value r' hread
      have hkey : IsLineKey key := LineReader.isLineKey_of_read hlines.1 (congrArg Prod.fst hread)
      refine ih hlines.2 (fun entry hentry => ?_) h
      rcases Metadata.mem_insertEntry hentry with rfl | hentry
      · exact hkey
      · exact hm entry hentry
    · exact ih hlines.2 hm h
    · cases h

/-- The keys of the metadata of a text that can be opened can stand in a metadata line. -/
theorem isLineKey_of_ofBytes {text : List Char} {r : TextReader}
    (h : ofBytes (Utf8.encode text) = .ok (m, r)) : ∀ entry ∈ m.entries, IsLineKey entry.1 := by
  have hpieces : ∀ piece ∈ splitAtSeparators (· == '\n') text, '\n' ∉ piece :=
    fun piece hpiece hfeed => Bool.noConfusion (not_sep_of_mem_split hpiece '\n' hfeed)
  have hgives := @gives_properLines ⟨"", []⟩ {} _ hpieces
  rw [intercalate_splitAtSeparators] at hgives
  refine isLineKey_of_opening (fun line hline => hpieces line (mem_of_mem_properLines hline)) ?_
    (opening_of_gives h hgives).1
  exact fun entry hentry => absurd hentry List.not_mem_nil

/-- The lines of metadata are opened as the same metadata, with no message behind it, just if all
keys can stand in a metadata line. -/
theorem ofBytes_textHeader_iff (c : Catalogue) (options : CommandOptions) (m : Metadata) :
    (∃ r, ofBytes (Utf8.encode (textHeader m)) = .ok (m, r) ∧ Yields (next c options) r []) ↔
      ∀ entry ∈ m.entries, IsLineKey entry.1 := by
  constructor
  · rintro ⟨r, hopen, -⟩
    exact isLineKey_of_ofBytes hopen
  · intro hkeys
    obtain ⟨r, hopen, hitems⟩ := @exists_yields_of_written m c options hkeys [] [] .nil
    have hnone : Utf8.encode (textHeader m) ++ (commandLines []).flatten
        = Utf8.encode (textHeader m) := List.append_nil _
    rw [hnone] at hopen
    exact ⟨r, hopen, hitems⟩

/-- A key with a line feed is cut in two lines, and is not read back. -/
theorem key_not_read_back :
    ¬∀ (c : Catalogue) (options : CommandOptions) (m : Metadata),
      ∃ r, ofBytes (Utf8.encode (textHeader m)) = .ok (m, r) ∧ Yields (next c options) r [] := by
  intro h
  obtain ⟨r, hopen, -⟩ := h ⟨"", []⟩ {} (.ofPairs [("a\nb", "c")])
  have hkey : IsLineKey "a\nb" := isLineKey_of_ofBytes hopen ("a\nb", "c") (by decide)
  exact hkey.2.2 (by decide)

end TextReader

end WireSchema
