import Mathlib
import WireSchema.Proofs.Json.StringMap
import WireSchema.Proofs.Utf8
import WireSchema.Recording.Metadata

/-!
# Metadata is read back

Entries that are added in the order of their keys stay in that order, so that the metadata of a list
of sorted entries holds this list, and the JSON form of metadata is read back. Of several texts that
are added under one key the last one is kept.

* `Metadata.entries_foldl_insert` — adding entries that are sorted;
* `Metadata.ofPairs_entries` — metadata is given by its entries;
* `Metadata.lookup_insertEntry`, `Metadata.lookup_foldl_insert` — the text that stands under a key;
* `Metadata.decode?_encode` — the JSON form is read back.
-/

namespace WireSchema.Metadata

/-- An entry whose key is the greatest comes last. -/
theorem insertEntry_of_lt {key value : String} {l : List (String × String)}
    (h : ∀ e ∈ l, e.1 < key) : insertEntry key value l = l ++ [(key, value)] := by
  induction l with
  | nil => rfl
  | cons e l ih =>
    rw [List.forall_mem_cons] at h
    have hnot : ¬key < e.1 := fun hlt => String.lt_irrefl key (String.lt_trans hlt h.1)
    have hne : key ≠ e.1 := fun heq => String.lt_irrefl key (heq ▸ h.1)
    rw [insertEntry, if_neg hnot, if_neg hne, ih h.2, List.cons_append]

/-- Entries that are sorted, behind those that are there, are added in their order. -/
theorem entries_foldl_insert {m : Metadata} {pairs : List (String × String)}
    (h : (m.entries ++ pairs).Pairwise fun a b => a.1 < b.1) :
    (pairs.foldl (fun m p => m.insert p.1 p.2) m).entries = m.entries ++ pairs := by
  induction pairs generalizing m with
  | nil => exact (List.append_nil _).symm
  | cons p pairs ih =>
    have hlast : (m.insert p.1 p.2).entries = m.entries ++ [p] := by
      refine insertEntry_of_lt fun e he => ?_
      exact (List.pairwise_append.mp h).2.2 e he p List.mem_cons_self
    rw [List.foldl_cons, ih, hlast, List.append_assoc, List.singleton_append]
    rw [hlast, List.append_assoc, List.singleton_append]
    exact h

theorem ext_entries {m m' : Metadata} (h : m.entries = m'.entries) : m = m' := by
  cases m
  cases m'
  cases h
  rfl

/-- Metadata is given by its entries. -/
theorem ofPairs_entries (m : Metadata) : ofPairs m.entries = m := by
  refine ext_entries ?_
  have hsorted : (empty.entries ++ m.entries).Pairwise fun a b => a.1 < b.1 := m.sorted
  rw [ofPairs, entries_foldl_insert hsorted]
  rfl

/-- A text that is added stands under its key, and the other keys have the texts that they had. -/
theorem lookup_insertEntry (key value other : String) (l : List (String × String)) :
    (insertEntry key value l).lookup other
      = if other = key then some value else l.lookup other := by
  have hcons : ∀ (e : String × String) (rest : List (String × String)),
      (e :: rest).lookup other = if other = e.1 then some e.2 else rest.lookup other := by
    intro e rest
    by_cases heq : other = e.1
    · rw [if_pos heq, heq]
      exact List.lookup_cons_self
    · rw [if_neg heq, List.lookup_cons, beq_eq_false_iff_ne.mpr heq]
  induction l with
  | nil => exact hcons (key, value) []
  | cons e rest ih =>
    by_cases hlt : key < e.1
    · rw [insertEntry, if_pos hlt, hcons (key, value)]
    · by_cases heq : key = e.1
      · rw [insertEntry, if_neg hlt, if_pos heq, hcons, hcons e, heq]
        split_ifs <;> rfl
      · rw [insertEntry, if_neg hlt, if_neg heq, hcons, hcons, ih]
        by_cases hother : other = e.1
        · rw [if_pos hother, if_pos hother, if_neg fun hkey => heq (hkey.symm.trans hother)]
        · rw [if_neg hother, if_neg hother]

/-- Of the texts that are added under a key the last one counts. -/
theorem lookup_foldl_insert (m : Metadata) (pairs : List (String × String)) (key : String) :
    (pairs.foldl (fun m p => m.insert p.1 p.2) m).entries.lookup key
      = (pairs.reverse.lookup key).or (m.entries.lookup key) := by
  induction pairs generalizing m with
  | nil => rfl
  | cons p pairs ih =>
    have hinsert : (m.insert p.1 p.2).entries.lookup key
        = ([p].lookup key).or (m.entries.lookup key) := by
      refine (lookup_insertEntry p.1 p.2 key m.entries).trans ?_
      by_cases heq : key = p.1
      · rw [if_pos heq, heq, List.lookup_cons_self, Option.some_or]
      · rw [if_neg heq, List.lookup_cons, beq_eq_false_iff_ne.mpr heq]
        rfl
    rw [List.foldl_cons, ih, hinsert, List.reverse_cons, List.lookup_append, Option.or_assoc]

/-- The JSON form of metadata is read back. -/
theorem decode?_encode (m : Metadata) : decode? m.encode = some m := by
  rw [decode?, encode, Utf8.decode?_encode, Option.bind_some]
  show (Json.readStringMap? (Json.object (Json.stringMembers m.entries)).render).map ofPairs = _
  rw [Json.readStringMap?_render, Option.map_some, ofPairs_entries]

end WireSchema.Metadata
