import Mathlib
import WireSchema.Proofs.Schema.Field
import WireSchema.Schema.Layout

/-!
# Layouts that have been checked

The layout of declared fields: every field is well formed and stands at its place, names are
distinct, and the bounds are the totals of the fields' bounds, the upper one never above what a
frame can carry.

* `PlacedFrom` — fields in order, each at its place behind the ones before it;
* `PlacedFrom.placed` — the place of one of them;
* `Layout.WellFormed` — what holds of a layout as a whole;
* `Layout.wellFormed_of_ofDecls` — it holds of every layout of declared fields;
* `Layout.ofDecl_of_ofDecls` — the fields of such a layout are those that its declarations give.
-/

namespace WireSchema

/-! ### Fields in order -/

/-- The sum of the least lengths. -/
def minTotal (fields : List Field) : Nat :=
  (fields.map Field.minLen).sum

/-- The sum of the greatest lengths. -/
def maxTotal (fields : List Field) : Nat :=
  (fields.map Field.maxLen).sum

@[simp] theorem minTotal_nil : minTotal [] = 0 := rfl

@[simp] theorem maxTotal_nil : maxTotal [] = 0 := rfl

@[simp] theorem minTotal_cons (f : Field) (fields : List Field) :
    minTotal (f :: fields) = f.minLen + minTotal fields := by
  simp [minTotal]

@[simp] theorem maxTotal_cons (f : Field) (fields : List Field) :
    maxTotal (f :: fields) = f.maxLen + maxTotal fields := by
  simp [maxTotal]

theorem minTotal_append (before after : List Field) :
    minTotal (before ++ after) = minTotal before + minTotal after := by
  simp [minTotal]

theorem maxTotal_append (before after : List Field) :
    maxTotal (before ++ after) = maxTotal before + maxTotal after := by
  simp [maxTotal]

/-- Each field stands at its place, behind fields that take at least `prevMin` and at most `prevMax`
bytes together. -/
def PlacedFrom (prevMin prevMax : Nat) : List Field → Prop
  | [] => True
  | f :: fields =>
    f.Placed fields.isEmpty prevMin prevMax ∧
      PlacedFrom (prevMin + f.minLen) (min (prevMax + f.maxLen) maxPayload) fields

/-- A field stands at its place behind all fields before it. Their greatest lengths are cut off at
the end of a payload one after the other, which is the same as once. -/
theorem PlacedFrom.placed {prevMin prevMax : ℕ} {before after : List Field} {f : Field}
    (hmax : prevMax ≤ maxPayload) (h : PlacedFrom prevMin prevMax (before ++ f :: after)) :
    f.Placed after.isEmpty (prevMin + minTotal before)
      (min (prevMax + maxTotal before) maxPayload) := by
  induction before generalizing prevMin prevMax with
  | nil =>
    rw [minTotal_nil, maxTotal_nil, Nat.add_zero, Nat.add_zero, Nat.min_eq_left hmax]
    exact h.1
  | cons g before ih =>
    have hplaced := ih (Nat.min_le_right _ _) h.2
    have hcut : min (min (prevMax + g.maxLen) maxPayload + maxTotal before) maxPayload
        = min (prevMax + maxTotal (g :: before)) maxPayload := by
      rw [maxTotal_cons]
      omega
    rwa [hcut, Nat.add_assoc, ← minTotal_cons] at hplaced

/-- Whether a field shows where it ends: only the last one may take what is left. -/
def Field.IsDelimited (f : Field) : Prop :=
  match f.kind with
  | .scalar _ => True
  | .sequence _ count _ => count ≠ none
  | .records .. => False

/-- A field that others follow shows where it ends. -/
theorem Field.Placed.isDelimited {f : Field} {prevMin prevMax : Nat}
    (h : f.Placed false prevMin prevMax) : f.IsDelimited := by
  unfold Field.IsDelimited
  cases hkind : f.kind with
  | scalar kind => trivial
  | sequence type count format =>
    intro hcount
    exact Bool.false_ne_true ((h.sequence hkind).1.mp hcount)
  | records recordName columns itemLen maxItems =>
    exact Bool.false_ne_true (h.records hkind).1

/-! ### Layouts -/

/-- What holds of a layout whose fields have been checked one after the other. -/
structure Layout.WellFormed (l : Layout) : Prop where
  fields : ∀ f ∈ l.fields, f.WellFormed
  names : (l.fields.map Field.name).Nodup
  placed : PlacedFrom 0 0 l.fields
  minLen_eq : l.minLen = minTotal l.fields
  maxLen_eq : l.maxLen = min (maxTotal l.fields) maxPayload

namespace Layout

/-- A field whose name is not taken is new to a layout. -/
theorem not_mem_names {l : Layout} {name : String} (h : ¬(l.field? name).isSome = true) :
    name ∉ l.fields.map Field.name := by
  intro hmem
  obtain ⟨f, hf, rfl⟩ := List.mem_map.mp hmem
  refine h ?_
  rw [field?, List.find?_isSome]
  exact ⟨f, hf, beq_self_eq_true _⟩

/-- What `extend` adds to a layout: fields that are well formed, each at its place, with new names,
and their lengths. -/
theorem extend_eq_ok {owner : String} {decls : List FieldDecl} {l l' : Layout}
    (hmax : l.maxLen ≤ maxPayload) (hnames : (l.fields.map Field.name).Nodup)
    (h : extend owner l decls = .ok l') :
    ∃ more, l'.fields = l.fields ++ more ∧ more.length = decls.length ∧
      (∀ f ∈ more, f.WellFormed) ∧ PlacedFrom l.minLen l.maxLen more ∧
      (l'.fields.map Field.name).Nodup ∧ l'.minLen = l.minLen + minTotal more ∧
      l'.maxLen = min (l.maxLen + maxTotal more) maxPayload := by
  induction decls generalizing l with
  | nil =>
    cases h
    refine ⟨[], by simp, rfl, by simp, trivial, hnames, by simp, ?_⟩
    rw [maxTotal_nil, Nat.add_zero, Nat.min_eq_left hmax]
  | cons d rest ih =>
    rw [extend] at h
    split at h
    · cases h
    rename_i f hf
    split at h
    · cases h
    rename_i hfresh
    have hadded : ((l.add f).fields.map Field.name).Nodup := by
      rw [add, List.map_append, List.map_singleton]
      exact List.nodup_append.mpr ⟨hnames, List.nodup_singleton _, fun a ha b hb hab =>
        not_mem_names hfresh (List.mem_singleton.mp hb ▸ hab ▸ ha)⟩
    obtain ⟨more, hfields, hlength, hwf, hplaced, hnodup, hmin, hmax'⟩ :=
      ih (Nat.min_le_right _ _) hadded h
    have hempty : more.isEmpty = rest.isEmpty := by
      rw [Bool.eq_iff_iff, List.isEmpty_iff_length_eq_zero, List.isEmpty_iff_length_eq_zero,
        hlength]
    refine ⟨f :: more, ?_, ?_, ?_, ?_, hnodup, ?_, ?_⟩
    · rw [hfields, add, List.append_assoc, List.singleton_append]
    · rw [List.length_cons, List.length_cons, hlength]
    · intro g hg
      rcases List.mem_cons.mp hg with rfl | hg
      · exact Field.wellFormed_of_ofDecl hf
      · exact hwf g hg
    · exact ⟨hempty ▸ Field.placed_of_ofDecl hf, hplaced⟩
    · rw [hmin, minTotal_cons]
      show l.minLen + f.minLen + minTotal more = _
      omega
    · rw [hmax', maxTotal_cons]
      show min (min (l.maxLen + f.maxLen) maxPayload + maxTotal more) maxPayload = _
      omega

/-- The layout of declared fields is well formed. -/
theorem wellFormed_of_ofDecls {owner : String} {decls : List FieldDecl} {l : Layout}
    (h : ofDecls owner decls = .ok l) : l.WellFormed := by
  obtain ⟨more, hfields, -, hwf, hplaced, hnames, hmin, hmax⟩ :=
    extend_eq_ok (l := empty) (Nat.zero_le _) List.nodup_nil h
  have hmore : more = l.fields := hfields.symm
  subst hmore
  refine ⟨hwf, hnames, hplaced, ?_, ?_⟩
  · rw [hmin]
    exact Nat.zero_add _
  · rw [hmax]
    show min (0 + maxTotal l.fields) maxPayload = _
    rw [Nat.zero_add]

/-- What `extend` adds to a layout are the fields of the declarations, in their order. -/
theorem ofDecl_of_extend {owner : String} {decls : List FieldDecl} {l l' : Layout}
    (h : extend owner l decls = .ok l') :
    ∃ more, l'.fields = l.fields ++ more ∧ List.Forall₂ (fun d f =>
      ∃ isLast prevMin prevMax, Field.ofDecl d isLast prevMin prevMax = .ok f) decls more := by
  induction decls generalizing l with
  | nil =>
    cases h
    exact ⟨[], (List.append_nil _).symm, .nil⟩
  | cons d rest ih =>
    rw [extend] at h
    split at h
    · cases h
    rename_i f hf
    split at h
    · cases h
    obtain ⟨more, hfields, hdeclared⟩ := ih h
    refine ⟨f :: more, ?_, .cons ⟨_, _, _, hf⟩ hdeclared⟩
    rw [hfields, add, List.append_assoc, List.singleton_append]

/-- The fields of a layout of declared fields are those that the declarations give. -/
theorem ofDecl_of_ofDecls {owner : String} {decls : List FieldDecl} {l : Layout}
    (h : ofDecls owner decls = .ok l) :
    List.Forall₂ (fun d f =>
      ∃ isLast prevMin prevMax, Field.ofDecl d isLast prevMin prevMax = .ok f) decls l.fields := by
  obtain ⟨more, hfields, hdeclared⟩ := ofDecl_of_extend h
  exact hfields ▸ hdeclared

/-- Each field of a layout of declared fields is one that a declaration gives. -/
theorem ofDecl_of_mem {owner : String} {decls : List FieldDecl} {l : Layout}
    (h : ofDecls owner decls = .ok l) {f : Field} (hf : f ∈ l.fields) :
    ∃ d isLast prevMin prevMax, Field.ofDecl d isLast prevMin prevMax = .ok f := by
  obtain ⟨d, -, hdeclared⟩ := exists_of_forall₂ (ofDecl_of_ofDecls h) hf
  exact ⟨d, hdeclared⟩

end Layout

end WireSchema
