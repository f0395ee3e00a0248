import Mathlib
import WireSchema.Proofs.Results
import WireSchema.Yaml.Value

/-!
# Values in another order

The entries of a mapping may stand in any order. Two values differ only in this if one becomes the
other by reordering entries, at any depth. What is not a mapping is not affected, so that a string
or a number is the same in both.

A mapping that was read has distinct keys. This says less than it seems: keys count as distinct if
their tags differ, and a tag does not matter for what a key reads as.

* `Value.KeysPairwise`, `Value.UniqueKeys` — a condition on the keys of every mapping;
* `Value.differInName_of_untagged` — keys without tags;
* `Value.uniqueKeys_of_read` — a text that is read has distinct keys;
* `Value.Reordered` — values that differ in the order of entries;
* `Value.Reordered.string?`, `Value.Reordered.natural?`, `Value.Reordered.bind_entries?` — what they
  read as.
-/

namespace WireSchema.Yaml

/-! ### Keys -/

mutual

/-- In every mapping of a value, at any depth, something holds of each key and each later one. -/
def Value.KeysPairwise (R : Value → Value → Prop) : Value → Prop
  | .sequence items => itemsKeysPairwise R items
  | .mapping entries => (entries.Pairwise fun a b => R a.1 b.1) ∧ entriesKeysPairwise R entries
  | .tagged _ v => v.KeysPairwise R
  | _ => True

/-- `Value.KeysPairwise` for each item of a sequence. -/
def itemsKeysPairwise (R : Value → Value → Prop) : List Value → Prop
  | [] => True
  | v :: rest => v.KeysPairwise R ∧ itemsKeysPairwise R rest

/-- `Value.KeysPairwise` for each key and each value of a mapping. -/
def entriesKeysPairwise (R : Value → Value → Prop) : List (Value × Value) → Prop
  | [] => True
  | (k, v) :: rest => k.KeysPairwise R ∧ v.KeysPairwise R ∧ entriesKeysPairwise R rest

end

/-- The keys of every mapping are distinct: none is the same as an earlier one. -/
def Value.UniqueKeys (v : Value) : Prop :=
  v.KeysPairwise fun a b => b.same a = false

/-- Two keys do not read as the same name. -/
def Value.DifferInName (a b : Value) : Prop :=
  ∀ name, a.string? = some name → b.string? ≠ some name

namespace Value

variable {R : Value → Value → Prop}

theorem KeysPairwise.untagged {v : Value} (h : v.KeysPairwise R) : v.untagged.KeysPairwise R := by
  fun_induction Value.untagged v with
  | case1 tag v ih => exact ih h
  | case2 v => exact h

theorem KeysPairwise.of_entries? {v : Value} {entries : List (Value × Value)}
    (h : v.KeysPairwise R) (hentries : v.entries? = some entries) :
    (entries.Pairwise fun a b => R a.1 b.1) ∧ entriesKeysPairwise R entries := by
  have huntagged := h.untagged
  unfold Value.entries? at hentries
  split at hentries <;> cases hentries
  rename_i heq
  rw [heq] at huntagged
  exact huntagged

end Value

theorem itemsKeysPairwise_iff {R : Value → Value → Prop} {items : List Value} :
    itemsKeysPairwise R items ↔ ∀ v ∈ items, v.KeysPairwise R := by
  induction items with
  | nil => simp [itemsKeysPairwise]
  | cons v items ih => rw [itemsKeysPairwise, ih, List.forall_mem_cons]

theorem entriesKeysPairwise_iff {R : Value → Value → Prop} {entries : List (Value × Value)} :
    entriesKeysPairwise R entries ↔
      ∀ e ∈ entries, e.1.KeysPairwise R ∧ e.2.KeysPairwise R := by
  induction entries with
  | nil => simp [entriesKeysPairwise]
  | cons e entries ih =>
    rw [entriesKeysPairwise, ih, List.forall_mem_cons, and_assoc]

mutual

/-- Two conditions on keys that together give a third one. -/
theorem Value.KeysPairwise.mp {R S T : Value → Value → Prop} (h : ∀ a b, R a b → S a b → T a b) :
    ∀ {v : Value}, v.KeysPairwise R → v.KeysPairwise S → v.KeysPairwise T
  | .null, _, _ | .bool _, _, _ | .number _, _, _ | .string _, _, _ => trivial
  | .sequence _, hr, hs => itemsKeysPairwise_mp h hr hs
  | .mapping _, hr, hs =>
    ⟨hr.1.imp₂ (fun {a b} => h a.1 b.1) hs.1, entriesKeysPairwise_mp h hr.2 hs.2⟩
  | .tagged _ v, hr, hs => Value.KeysPairwise.mp h (v := v) hr hs

theorem itemsKeysPairwise_mp {R S T : Value → Value → Prop} (h : ∀ a b, R a b → S a b → T a b) :
    ∀ {items : List Value}, itemsKeysPairwise R items → itemsKeysPairwise S items →
      itemsKeysPairwise T items
  | [], _, _ => trivial
  | _ :: _, hr, hs => ⟨hr.1.mp h hs.1, itemsKeysPairwise_mp h hr.2 hs.2⟩

theorem entriesKeysPairwise_mp {R S T : Value → Value → Prop}
    (h : ∀ a b, R a b → S a b → T a b) : ∀ {entries : List (Value × Value)},
      entriesKeysPairwise R entries → entriesKeysPairwise S entries → entriesKeysPairwise T entries
  | [], _, _ => trivial
  | _ :: _, hr, hs =>
    ⟨hr.1.mp h hs.1, hr.2.1.mp h hs.2.1, entriesKeysPairwise_mp h hr.2.2 hs.2.2⟩

end

theorem Value.untagged_of_string? {v : Value} {s : String} (h : v.string? = some s) :
    v.untagged = .string s := by
  unfold Value.string? at h
  split at h <;> cases h
  assumption

/-- Distinct keys without tags are different names. -/
theorem Value.differInName_of_untagged {a b : Value} (ha : a.untagged = a) (hb : b.untagged = b)
    (hdistinct : b.same a = false) : a.DifferInName b := by
  intro name hname hname'
  rw [← ha, ← hb, untagged_of_string? hname, untagged_of_string? hname', Value.same] at hdistinct
  simp at hdistinct

/-! ### Reading -/

theorem uniqueKeys_of_plainScalar {s : String} {v : Value} (h : plainScalar s = .ok v) :
    v.UniqueKeys := by
  unfold plainScalar at h
  repeat' split at h
  all_goals cases h
  all_goals exact trivial

theorem uniqueKeys_of_untaggedScalar {text : String} {style : ScalarStyle} {v : Value}
    (h : untaggedScalar text style = .ok v) : v.UniqueKeys := by
  unfold untaggedScalar at h
  split at h
  · exact uniqueKeys_of_plainScalar h
  · cases h
    exact trivial

theorem uniqueKeys_of_taggedScalar {tag text : String} {v : Value}
    (h : taggedScalar tag text = .ok v) : v.UniqueKeys := by
  unfold taggedScalar at h
  split_ifs at h
  · cases htruth : truth? text <;> rw [htruth] at h <;> cases h
    exact trivial
  · split at h <;> cases h
    exact trivial
  · cases hfraction : fraction? text.toList <;> rw [hfraction] at h <;> cases h
    exact trivial
  · cases h
    exact trivial
  · cases h
    exact trivial

theorem uniqueKeys_of_scalarValue {tag : Option String} {text : String} {style : ScalarStyle}
    {v : Value} (h : scalarValue tag text style = .ok v) : v.UniqueKeys := by
  unfold scalarValue at h
  split at h
  · exact uniqueKeys_of_untaggedScalar h
  split at h
  · obtain ⟨w, hw, rfl⟩ := map_eq_ok.mp h
    exact @uniqueKeys_of_untaggedScalar text style w hw
  · exact uniqueKeys_of_taggedScalar h

theorem uniqueKeys_underTag {tag : Option String} {v : Value} (h : v.UniqueKeys) :
    (underTag tag v).UniqueKeys := by
  unfold underTag
  split <;> exact h

/-- The keys of the entries so far, the last one first, and of their values are distinct. -/
def DistinctSoFar (done : List (Value × Value)) : Prop :=
  (done.Pairwise fun a b => a.1.same b.1 = false) ∧ ∀ e ∈ done, e.1.UniqueKeys ∧ e.2.UniqueKeys

theorem DistinctSoFar.cons {done : List (Value × Value)} (hdone : DistinctSoFar done) {k v : Value}
    (hnew : done.any (fun entry => k.same entry.1) ≠ true) (hk : k.UniqueKeys)
    (hv : v.UniqueKeys) : DistinctSoFar ((k, v) :: done) := by
  refine ⟨List.pairwise_cons.mpr ⟨fun e he => ?_, hdone.1⟩, ?_⟩
  · rw [Ne, List.any_eq_true, not_exists] at hnew
    exact Bool.eq_false_iff.mpr fun hsame => hnew e ⟨he, hsame⟩
  · rw [List.forall_mem_cons]
    exact ⟨⟨hk, hv⟩, hdone.2⟩

theorem DistinctSoFar.uniqueKeys {done : List (Value × Value)} (hdone : DistinctSoFar done) :
    (Value.mapping done.reverse).UniqueKeys := by
  refine ⟨List.pairwise_reverse.mpr hdone.1, entriesKeysPairwise_iff.mpr fun e he => ?_⟩
  exact hdone.2 e (List.mem_reverse.mp he)

mutual

theorem uniqueKeys_of_valueOf : ∀ (n : Node) {depth : ℕ} {b b' : AliasBudget} {v : Value},
    valueOf depth b n = .ok (v, b') → v.UniqueKeys
  | .scalar tag text style, depth, b, b', v, h => by
    rw [valueOf] at h
    obtain ⟨w, hw, hpair⟩ := map_eq_ok.mp h
    cases hpair
    exact uniqueKeys_of_scalarValue hw
  | .cyclic, depth, b, b', v, h => by
    rw [valueOf] at h
    cases h
  | .shared target, depth, b, b', v, h => by
    rw [valueOf] at h
    split at h
    · exact uniqueKeys_of_valueOf target h
    · cases h
  | .sequence tag items, depth, b, b', v, h => by
    cases depth with
    | zero =>
      rw [valueOf] at h
      cases h
    | succ depth =>
      rw [valueOf] at h
      split at h <;> cases h
      rename_i values _ hvalues
      have hitems := uniqueKeys_of_valuesOf items hvalues (fun _ hmem => nomatch hmem)
      exact uniqueKeys_underTag (itemsKeysPairwise_iff.mpr hitems)
  | .mapping tag entries, depth, b, b', v, h => by
    cases depth with
    | zero =>
      rw [valueOf] at h
      cases h
    | succ depth =>
      rw [valueOf] at h
      split at h <;> cases h
      rename_i values _ hvalues
      exact uniqueKeys_underTag
        (uniqueKeys_of_entriesOf entries hvalues ⟨.nil, fun _ hmem => nomatch hmem⟩)

theorem uniqueKeys_of_valuesOf : ∀ (items : List Node) {depth : ℕ} {b b' : AliasBudget}
    {done values : List Value}, valuesOf depth b done items = .ok (values, b') →
      (∀ v ∈ done, v.UniqueKeys) → ∀ v ∈ values, v.UniqueKeys
  | [], depth, b, b', done, values, h, hdone => by
    rw [valuesOf] at h
    cases h
    exact fun v hv => hdone v (List.mem_reverse.mp hv)
  | n :: rest, depth, b, b', done, values, h, hdone => by
    rw [valuesOf] at h
    split at h
    · rename_i hvalue
      refine uniqueKeys_of_valuesOf rest h (List.forall_mem_cons.mpr ⟨?_, hdone⟩)
      exact uniqueKeys_of_valueOf n hvalue
    · cases h

theorem uniqueKeys_of_entriesOf : ∀ (entries : List (Node × Node)) {depth : ℕ}
    {b b' : AliasBudget} {done values : List (Value × Value)},
      entriesOf depth b done entries = .ok (values, b') → DistinctSoFar done →
        (Value.mapping values).UniqueKeys
  | [], depth, b, b', done, values, h, hdone => by
    rw [entriesOf] at h
    cases h
    exact hdone.uniqueKeys
  | (kn, vn) :: rest, depth, b, b', done, values, h, hdone => by
    rw [entriesOf] at h
    split at h
    · cases h
    rename_i hkey
    split at h
    · cases h
    rename_i hnew
    split at h
    · rename_i hvalue
      refine uniqueKeys_of_entriesOf rest h (hdone.cons hnew ?_ ?_)
      · exact uniqueKeys_of_valueOf kn hkey
      · exact uniqueKeys_of_valueOf vn hvalue
    · cases h

end

/-- The mappings of a text that is read have distinct keys. -/
theorem Value.uniqueKeys_of_read {text : String} {v : Value} (h : Value.read text = .ok v) :
    v.UniqueKeys := by
  obtain ⟨n, -, hvalue⟩ := bind_eq_ok.mp h
  obtain ⟨⟨w, b⟩, hw, rfl⟩ := map_eq_ok.mp hvalue
  exact uniqueKeys_of_valueOf n hw

/-! ### Another order -/

mutual

/-- Two values differ only in the order of the entries of mappings, at any depth. -/
inductive Value.Reordered : Value → Value → Prop
  | refl (v : Value) : Value.Reordered v v
  | sequence {items items' : List Value} (h : ItemsReordered items items') :
      Value.Reordered (.sequence items) (.sequence items')
  | mapping {entries between entries' : List (Value × Value)}
      (h : EntriesReordered entries between) (hperm : between.Perm entries') :
      Value.Reordered (.mapping entries) (.mapping entries')
  | tagged (tag : String) {v w : Value} (h : Value.Reordered v w) :
      Value.Reordered (.tagged tag v) (.tagged tag w)

/-- The items of two sequences are reordered, one by one. -/
inductive ItemsReordered : List Value → List Value → Prop
  | nil : ItemsReordered [] []
  | cons {v w : Value} {items items' : List Value} (h : Value.Reordered v w)
      (hrest : ItemsReordered items items') : ItemsReordered (v :: items) (w :: items')

/-- The keys and values of two mappings are reordered, one by one. -/
inductive EntriesReordered : List (Value × Value) → List (Value × Value) → Prop
  | nil : EntriesReordered [] []
  | cons {k l v w : Value} {entries entries' : List (Value × Value)} (hkey : Value.Reordered k l)
      (hvalue : Value.Reordered v w) (hrest : EntriesReordered entries entries') :
      EntriesReordered ((k, v) :: entries) ((l, w) :: entries')

end

theorem ItemsReordered.forall₂ : ∀ {items items' : List Value}, ItemsReordered items items' →
    List.Forall₂ Value.Reordered items items'
  | _, _, .nil => .nil
  | _, _, .cons h hrest => .cons h hrest.forall₂

theorem EntriesReordered.forall₂ : ∀ {entries entries' : List (Value × Value)},
    EntriesReordered entries entries' →
      List.Forall₂ (fun e f => e.1.Reordered f.1 ∧ e.2.Reordered f.2) entries entries'
  | _, _, .nil => .nil
  | _, _, .cons hkey hvalue hrest => .cons ⟨hkey, hvalue⟩ hrest.forall₂

theorem EntriesReordered.refl (entries : List (Value × Value)) :
    EntriesReordered entries entries := by
  induction entries with
  | nil => exact .nil
  | cons e entries ih => exact .cons (.refl e.1) (.refl e.2) ih

namespace Value

/-- Tags do not matter for the order. -/
theorem Reordered.untagged : ∀ {v w : Value}, v.Reordered w → v.untagged.Reordered w.untagged
  | _, _, .refl _ => .refl _
  | _, _, .sequence h => .sequence h
  | _, _, .mapping h hperm => .mapping h hperm
  | _, _, .tagged _ h => h.untagged

variable {v w : Value}

theorem Reordered.string? (h : v.Reordered w) : v.string? = w.string? := by
  have huntagged := h.untagged
  unfold Value.string?
  generalize v.untagged = v' at huntagged ⊢
  generalize w.untagged = w' at huntagged ⊢
  cases huntagged <;> rfl

theorem Reordered.natural? (h : v.Reordered w) : v.natural? = w.natural? := by
  have huntagged := h.untagged
  unfold Value.natural?
  generalize v.untagged = v' at huntagged ⊢
  generalize w.untagged = w' at huntagged ⊢
  cases huntagged <;> rfl

/-- A mapping stays a mapping: its entries are reordered one by one, and then among each other. -/
theorem Reordered.entries? (h : v.Reordered w) :
    (v.entries? = none ∧ w.entries? = none) ∨
      ∃ entries between entries', v.entries? = some entries ∧ w.entries? = some entries' ∧
        EntriesReordered entries between ∧ between.Perm entries' := by
  have huntagged := h.untagged
  unfold Value.entries?
  generalize v.untagged = v' at huntagged ⊢
  generalize w.untagged = w' at huntagged ⊢
  cases huntagged with
  | refl =>
    cases v' with
    | mapping entries => exact Or.inr ⟨_, _, _, rfl, rfl, .refl entries, .refl _⟩
    | _ => exact Or.inl ⟨rfl, rfl⟩
  | sequence => exact Or.inl ⟨rfl, rfl⟩
  | mapping h hperm => exact Or.inr ⟨_, _, _, rfl, rfl, h, hperm⟩
  | tagged => exact Or.inl ⟨rfl, rfl⟩

/-- What is read off a mapping does not change if its entries may be reordered. -/
theorem Reordered.bind_entries? {γ : Type} {g : List (Value × Value) → Option γ}
    (h : v.Reordered w)
    (hg : ∀ entries between entries', v.entries? = some entries →
      EntriesReordered entries between → between.Perm entries' → g entries = g entries') :
    v.entries?.bind g = w.entries?.bind g := by
  rcases h.entries? with ⟨hv, hw⟩ | ⟨entries, between, entries', hv, hw, hentries, hperm⟩
  · rw [hv, hw]
  · rw [hw, hv]
    exact hg entries between entries' hv hentries hperm

end Value

end WireSchema.Yaml
