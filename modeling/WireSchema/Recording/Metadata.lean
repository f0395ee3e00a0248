import WireSchema.Json.StringMap
import WireSchema.Utf8

/-!
# Metadata of recordings

A recording carries texts under distinct keys. They are kept sorted by key, so that equal metadata
is written in one way only; of two texts under one key the later stays.

* `Metadata.insert`, `Metadata.ofPairs` — adding texts;
* `Metadata.encode`, `Metadata.decode?` — the JSON form.
-/

namespace WireSchema

/-- Texts under distinct keys, sorted by key. -/
structure Metadata where
  entries : List (String × String)
  sorted : entries.Pairwise fun a b => a.1 < b.1

namespace Metadata

instance : DecidableEq Metadata := fun a b =>
  decidable_of_iff (a.entries = b.entries)
    ⟨fun h => by cases a; cases b; cases h; rfl, fun h => h ▸ rfl⟩

/-- No texts. -/
def empty : Metadata := ⟨[], .nil⟩

/-- Sorted entries with a text under a key. -/
def insertEntry (key value : String) : List (String × String) → List (String × String)
  | [] => [(key, value)]
  | e :: rest =>
    if key < e.1 then (key, value) :: e :: rest
    else if key = e.1 then (key, value) :: rest
    else e :: insertEntry key value rest

theorem mem_insertEntry {key value : String} {l : List (String × String)} {e : String × String}
    (h : e ∈ insertEntry key value l) : e = (key, value) ∨ e ∈ l := by
  induction l with
  | nil => simpa [insertEntry] using h
  | cons d rest ih =>
    unfold insertEntry at h
    split at h
    · simpa using h
    · split at h
      · rcases List.mem_cons.1 h with h | h
        · exact .inl h
        · exact .inr (List.mem_cons_of_mem _ h)
      · rcases List.mem_cons.1 h with h | h
        · exact .inr (h ▸ List.mem_cons_self)
        · rcases ih h with h | h
          · exact .inl h
          · exact .inr (List.mem_cons_of_mem _ h)

theorem sorted_insertEntry (key value : String) {l : List (String × String)}
    (h : l.Pairwise fun a b => a.1 < b.1) :
    (insertEntry key value l).Pairwise fun a b => a.1 < b.1 := by
  induction l with
  | nil => simp [insertEntry]
  | cons d rest ih =>
    obtain ⟨hd, hrest⟩ := List.pairwise_cons.1 h
    unfold insertEntry
    split
    · rename_i hlt
      refine List.pairwise_cons.2 ⟨fun e he => ?_, h⟩
      rcases List.mem_cons.1 he with he | he
      · exact he ▸ hlt
      · exact String.lt_trans hlt (hd e he)
    · split
      · rename_i heq
        exact List.pairwise_cons.2 ⟨fun e he => heq ▸ hd e he, hrest⟩
      · rename_i hnlt hne
        have hlt : d.1 < key := Std.lt_of_le_of_ne (String.not_lt.1 hnlt) (Ne.symm hne)
        refine List.pairwise_cons.2 ⟨fun e he => ?_, ih hrest⟩
        rcases mem_insertEntry he with he | he
        · exact he ▸ hlt
        · exact hd e he

/-- The metadata with a text under a key, in place of an earlier one. -/
def insert (m : Metadata) (key value : String) : Metadata :=
  ⟨insertEntry key value m.entries, sorted_insertEntry key value m.sorted⟩

/-- The metadata of pairs; of equal keys the last one counts. -/
def ofPairs (pairs : List (String × String)) : Metadata :=
  pairs.foldl (fun m p => m.insert p.1 p.2) empty

/-- The bytes of the JSON form: one object, sorted by key. -/
def encode (m : Metadata) : Bytes :=
  Utf8.encode (Json.object (m.entries.map fun e => (e.1, .string e.2))).render

/-- The metadata of a JSON form. -/
def decode? (s : Bytes) : Option Metadata :=
  ((Utf8.decode? s).bind Json.readStringMap?).map ofPairs

end Metadata

end WireSchema
