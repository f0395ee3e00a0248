import Mathlib

/-!
# Results that may be errors

A computation in `Except` of several steps succeeds exactly when each step does. These lemmas take
such a computation apart into its steps.
-/

namespace WireSchema

variable {ε α β : Type}

theorem bind_eq_ok {x : Except ε α} {f : α → Except ε β} {b : β} :
    x >>= f = .ok b ↔ ∃ a, x = .ok a ∧ f a = .ok b := by
  cases x with
  | error e => simp [bind, Except.bind]
  | ok a => simp [bind, Except.bind]

theorem mapError_eq_ok {ε' : Type} {x : Except ε α} {f : ε → ε'} {a : α} :
    x.mapError f = .ok a ↔ x = .ok a := by
  cases x with
  | error e => simp [Except.mapError]
  | ok a => simp [Except.mapError]

theorem map_eq_ok {x : Except ε α} {f : α → β} {b : β} :
    x.map f = .ok b ↔ ∃ a, x = .ok a ∧ f a = b := by
  cases x with
  | error e => simp [Except.map]
  | ok a => simp [Except.map]

/-- A result behind a test is given exactly if the test holds. -/
theorem ite_eq_ok {P : Prop} [Decidable P] {a b : α} {e : ε} :
    (if P then Except.ok a else .error e) = .ok b ↔ P ∧ a = b := by
  by_cases h : P
  · rw [if_pos h, Except.ok.injEq, and_iff_right h]
  · rw [if_neg h]
    simp [h]

/-- A value that is checked is given back exactly if it passes. -/
theorem check_eq_ok {P : α → Prop} [DecidablePred P] {a b : α} {e : ε} :
    (if P a then Except.ok a else .error e) = .ok b ↔ a = b ∧ P b := by
  rw [ite_eq_ok, and_comm]
  exact and_congr_right fun h => by rw [h]

/-- An invariant of the state holds after a fold if each step that succeeds keeps it. -/
theorem foldlM_invariant {f : β → α → Except ε β} {P : β → Prop} {list : List α}
    (step : ∀ a ∈ list, ∀ s s', P s → f s a = .ok s' → P s') {s s' : β} (hs : P s)
    (h : list.foldlM f s = .ok s') : P s' := by
  induction list generalizing s with
  | nil =>
    cases h
    exact hs
  | cons a list ih =>
    rw [List.forall_mem_cons] at step
    rw [List.foldlM_cons, bind_eq_ok] at h
    obtain ⟨t, ht, h⟩ := h
    exact ih step.2 (step.1 s t hs ht) h

/-- Mapping a list succeeds when every element does; the results stand in the same order. -/
theorem mapM_eq_ok {f : α → Except ε β} {list : List α} {out : List β} :
    list.mapM f = .ok out ↔ List.Forall₂ (fun a b => f a = .ok b) list out := by
  induction list generalizing out with
  | nil =>
    rw [List.mapM_nil, List.forall₂_nil_left_iff]
    exact ⟨fun h => (Except.ok.inj h).symm, fun h => h ▸ rfl⟩
  | cons a list ih =>
    rw [List.mapM_cons, bind_eq_ok, List.forall₂_cons_left_iff]
    constructor
    · rintro ⟨b, hb, h⟩
      obtain ⟨bs, hbs, h⟩ := bind_eq_ok.mp h
      exact ⟨b, bs, hb, ih.mp hbs, (Except.ok.inj h).symm⟩
    · rintro ⟨b, bs, hb, hbs, rfl⟩
      exact ⟨b, hb, bind_eq_ok.mpr ⟨bs, ih.mpr hbs, rfl⟩⟩

/-- An entry of the second of two related lists has one in the first. -/
theorem exists_of_forall₂ {R : α → β → Prop} {list : List α} {out : List β}
    (h : List.Forall₂ R list out) {b : β} (hb : b ∈ out) : ∃ a ∈ list, R a b := by
  induction h with
  | nil => exact absurd hb List.not_mem_nil
  | cons hR _ ih =>
    rcases List.mem_cons.mp hb with rfl | hb
    · exact ⟨_, List.mem_cons_self, hR⟩
    · obtain ⟨a, ha, hab⟩ := ih hb
      exact ⟨a, List.mem_cons_of_mem _ ha, hab⟩

/-- If each entry has a result, the list of results stands in the same order. -/
theorem exists_forall₂ {R : α → β → Prop} {list : List α} (h : ∀ a ∈ list, ∃ b, R a b) :
    ∃ out, List.Forall₂ R list out := by
  induction list with
  | nil => exact ⟨[], .nil⟩
  | cons a list ih =>
    rw [List.forall_mem_cons] at h
    obtain ⟨b, hb⟩ := h.1
    obtain ⟨out, hout⟩ := ih h.2
    exact ⟨b :: out, .cons hb hout⟩

/-- A list is related to one with an entry more at its end exactly if it has such an entry too. -/
theorem forall₂_concat_left_iff {R : α → β → Prop} {list : List α} {a : α} {out : List β} :
    List.Forall₂ R (list ++ [a]) out ↔
      ∃ init b, List.Forall₂ R list init ∧ R a b ∧ out = init ++ [b] := by
  constructor
  · intro h
    have hback := List.forall₂_reverse_iff.mpr h
    rw [List.reverse_append, List.reverse_singleton, List.singleton_append,
      List.forall₂_cons_left_iff] at hback
    obtain ⟨b, back, hab, hlist, hout⟩ := hback
    refine ⟨back.reverse, b, ?_, hab, ?_⟩
    · rwa [← List.forall₂_reverse_iff, List.reverse_reverse]
    · rw [← List.reverse_cons, ← hout, List.reverse_reverse]
  · rintro ⟨init, b, hlist, hab, rfl⟩
    exact List.rel_append hlist (.cons hab .nil)

/-- What is true of the pairs of two lists relates the first to what the pairs give. -/
theorem forall₂_zipWith {γ : Type} {R : α → γ → Prop} {f : α → β → γ} {list : List α} {out : List β}
    (hlength : list.length = out.length) (h : ∀ p ∈ list.zip out, R p.1 (f p.1 p.2)) :
    List.Forall₂ R list (List.zipWith f list out) := by
  induction list generalizing out with
  | nil => exact .nil
  | cons a list ih =>
    cases out with
    | nil => cases hlength
    | cons b out =>
      rw [List.zip_cons_cons, List.forall_mem_cons] at h
      exact .cons h.1 (ih (Nat.succ.inj hlength) h.2)

end WireSchema
