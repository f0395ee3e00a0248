import Mathlib
import WireSchema.Proofs.Results

/-!
# Folds that may fail, in any order

Entries are added to a state one after the other, and an entry may be refused. Whether all are
accepted, and the state behind them, do not depend on their order if each two of them may be
exchanged. Only success counts here: which error is met first may well depend on the order.

* `toOption_foldlM` — a fold without its errors, in view of a part of its state;
* `Commutes`, `foldlM_perm` — entries that may be exchanged;
* `foldlM_reordered` — entries that are replaced by entries alike, and then exchanged;
* `find?_perm` — looking for the only entry of a kind.
-/

namespace WireSchema

variable {ε σ τ α β : Type}

/-! ### Results without their errors -/

theorem toOption_map (x : Except ε α) (f : α → β) : (x.map f).toOption = x.toOption.map f := by
  cases x <;> rfl

theorem toOption_bind (x : Except ε α) (f : α → Except ε β) :
    (x >>= f).toOption = x.toOption.bind fun a => (f a).toOption := by
  cases x <;> rfl

/-- Two results are the same without their errors, in view of a part, if they succeed together and
agree on that part. -/
theorem toOption_map_eq_iff {x y : Except ε α} {view : α → τ} :
    x.toOption.map view = y.toOption.map view ↔
      ((∃ a, x = .ok a) ↔ ∃ b, y = .ok b) ∧ ∀ a b, x = .ok a → y = .ok b → view a = view b := by
  cases x <;> cases y <;> simp [Except.toOption]

/-- A fold without its errors is a fold of steps without theirs. -/
theorem toOption_foldlM {f : σ → α → Except ε σ} {view : σ → τ} {g : τ → α → Option τ}
    (h : ∀ s a, (f s a).toOption.map view = g (view s) a) (list : List α) (s : σ) :
    (list.foldlM f s).toOption.map view = list.foldlM g (view s) := by
  induction list generalizing s with
  | nil => rfl
  | cons a list ih =>
    rw [List.foldlM_cons, List.foldlM_cons, toOption_bind, ← h s a]
    cases (f s a).toOption with
    | none => rfl
    | some t => exact ih t

theorem toOption_foldlM_steps (f : σ → α → Except ε σ) (list : List α) (s : σ) :
    (list.foldlM f s).toOption = list.foldlM (fun s a => (f s a).toOption) s := by
  have h := @toOption_foldlM ε σ σ α f id (fun s a => (f s a).toOption)
    (fun _ _ => Option.map_id_apply) list s
  rwa [Option.map_id_apply] at h

/-! ### Exchanging entries -/

/-- Two entries may be exchanged: the state behind both is the same, if there is one. -/
def Commutes (f : τ → α → Option τ) (a b : α) : Prop :=
  ∀ s, (f s a).bind (fun t => f t b) = (f s b).bind fun t => f t a

theorem Commutes.symm {f : τ → α → Option τ} {a b : α} (h : Commutes f a b) : Commutes f b a :=
  fun s => (h s).symm

variable {f : τ → α → Option τ} {list more list' : List α}

/-- Entries of which each two may be exchanged lead to the same state in every order. -/
theorem foldlM_perm (hperm : list.Perm list') (h : list.Pairwise (Commutes f)) (s : τ) :
    list.foldlM f s = list'.foldlM f s := by
  induction hperm generalizing s with
  | nil => rfl
  | cons a _ ih =>
    rw [List.foldlM_cons, List.foldlM_cons]
    exact congrArg _ (funext (ih h.of_cons))
  | swap a b list =>
    have hswap := (List.pairwise_cons.mp h).1 a List.mem_cons_self s
    simp only [List.foldlM_cons, ← bind_assoc]
    exact congrArg (fun x => x >>= fun t => list.foldlM f t) hswap
  | trans hfirst _ ih ih' =>
    exact (ih h s).trans (ih' ((hfirst.pairwise_iff Commutes.symm).mp h) s)

theorem foldlM_congr {R : α → α → Prop} (hcongr : ∀ s a b, R a b → f s a = f s b)
    (h : List.Forall₂ R list list') (s : τ) : list.foldlM f s = list'.foldlM f s := by
  induction h generalizing s with
  | nil => rfl
  | cons hab _ ih =>
    rw [List.foldlM_cons, List.foldlM_cons, hcongr s _ _ hab]
    exact congrArg _ (funext ih)

/-- Reordering entries one by one and then among each other is the same as the other way round. -/
theorem exists_perm_forall₂ {R : α → α → Prop} (h : List.Forall₂ R list more)
    (hperm : more.Perm list') : ∃ between, list.Perm between ∧ List.Forall₂ R between list' := by
  have hcomp : Relation.Comp (List.Forall₂ R) List.Perm list list' := ⟨more, h, hperm⟩
  rw [List.forall₂_comp_perm_eq_perm_comp_forall₂] at hcomp
  exact hcomp

/-- Entries that may be exchanged lead to the same state as entries alike in another order. -/
theorem foldlM_reordered {R : α → α → Prop} (hcongr : ∀ s a b, R a b → f s a = f s b)
    (h : List.Forall₂ R list more) (hperm : more.Perm list') (hcomm : list.Pairwise (Commutes f))
    (s : τ) : list.foldlM f s = list'.foldlM f s := by
  obtain ⟨between, hbetween, halike⟩ := exists_perm_forall₂ h hperm
  exact (foldlM_perm hbetween hcomm s).trans (foldlM_congr hcongr halike s)

/-! ### The only entry of a kind -/

/-- An entry that is the only one of its kind is found in every order. -/
theorem find?_perm {p : α → Bool} (hperm : list.Perm list')
    (hone : list.Pairwise fun a b => ¬(p a = true ∧ p b = true)) :
    list.find? p = list'.find? p := by
  induction hperm with
  | nil => rfl
  | cons a _ ih => rw [List.find?_cons, List.find?_cons, ih hone.of_cons]
  | swap a b list =>
    have hnot := (List.pairwise_cons.mp hone).1 a List.mem_cons_self
    simp only [List.find?_cons]
    cases hb : p b <;> cases ha : p a
    · rfl
    · rfl
    · rfl
    · exact absurd ⟨hb, ha⟩ hnot
  | trans hfirst _ ih ih' =>
    refine (ih hone).trans (ih' ((hfirst.pairwise_iff ?_).mp hone))
    exact fun h hboth => h hboth.symm

/-- What is read off the entry that is found is the same for entries alike. -/
theorem find?_bind_congr {R : α → α → Prop} {p : α → Bool} {g : α → Option β}
    (hcongr : ∀ a b, R a b → p a = p b ∧ g a = g b) (h : List.Forall₂ R list list') :
    (list.find? p).bind g = (list'.find? p).bind g := by
  induction h with
  | nil => rfl
  | cons hab _ ih =>
    obtain ⟨hp, hg⟩ := hcongr _ _ hab
    rw [List.find?_cons, List.find?_cons, hp]
    split
    · exact hg
    · exact ih

end WireSchema
