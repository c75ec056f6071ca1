import Mathlib.Data.Option.Basic

/-!
# Runs of a partial step function

A system takes actions one after another, each either enabled or not.  A run is a list of actions that are enabled
in turn.  `Meets` says that a condition on the state before the step and the action holds along a whole run, and
`invariant` is the induction every safety proof uses: what holds at the start and is kept by each step that meets
the condition holds wherever the run leads.  Two systems, of which one takes some actions that the other does not
see, are compared by `rel_run_filterMap`.
-/

namespace Run

variable {σ α : Type}

/-- Takes the actions in order; `none` as soon as one of them is not enabled. -/
def run (step : σ → α → Option σ) (s : σ) : List α → Option σ
  | [] => some s
  | a :: as => (step s a).bind fun s' => run step s' as

/-- Every step of the run meets `P`. -/
def Meets (step : σ → α → Option σ) (P : σ → α → Prop) (s : σ) : List α → Prop
  | [] => True
  | a :: as => P s a ∧ ∀ s' ∈ step s a, Meets step P s' as

instance decidableMeets (step : σ → α → Option σ) (P : σ → α → Prop) [∀ s a, Decidable (P s a)] :
    ∀ s as, Decidable (Meets step P s as)
  | _, [] => .isTrue trivial
  | s, a :: as =>
    have : ∀ s', Decidable (Meets step P s' as) := fun s' => decidableMeets step P s' as
    inferInstanceAs (Decidable (P s a ∧ ∀ s' ∈ step s a, Meets step P s' as))

variable {step : σ → α → Option σ}

theorem run_cons {s s' : σ} {a : α} {as : List α} :
    run step s (a :: as) = some s' ↔ ∃ t, step s a = some t ∧ run step t as = some s' := by
  simp [run, Option.bind_eq_some_iff]

theorem run_append {s s' : σ} {as bs : List α} :
    run step s (as ++ bs) = some s' ↔ ∃ t, run step s as = some t ∧ run step t bs = some s' := by
  induction as generalizing s with
  | nil => simp [run]
  | cons a as ih =>
    rw [List.cons_append, run_cons]
    constructor
    · rintro ⟨u, hu, h⟩
      obtain ⟨t, ht, h⟩ := ih.1 h
      exact ⟨t, run_cons.2 ⟨u, hu, ht⟩, h⟩
    · rintro ⟨t, ht, h⟩
      obtain ⟨u, hu, ht⟩ := run_cons.1 ht
      exact ⟨u, hu, ih.2 ⟨t, ht, h⟩⟩

theorem meets_append {P : σ → α → Prop} {s t : σ} {as bs : List α} (h : Meets step P s (as ++ bs))
    (ht : run step s as = some t) : Meets step P s as ∧ Meets step P t bs := by
  induction as generalizing s with
  | nil =>
    cases ht
    exact ⟨trivial, h⟩
  | cons a as ih =>
    obtain ⟨u, hu, ht⟩ := run_cons.1 ht
    obtain ⟨h1, h2⟩ := ih (h.2 u hu) ht
    refine ⟨⟨h.1, fun s' hs' => ?_⟩, h2⟩
    rw [Option.mem_def, hu] at hs'
    cases hs'
    exact h1

theorem meets_of_forall {P : σ → α → Prop} (h : ∀ s a, P s a) (s : σ) (as : List α) : Meets step P s as := by
  induction as generalizing s with
  | nil => exact trivial
  | cons a as ih => exact ⟨h s a, fun s' _ => ih s'⟩

/-- What holds at the start and is kept by every step that meets `P` holds at the end of the run. -/
theorem invariant {P : σ → α → Prop} {I : σ → Prop}
    (hstep : ∀ s a s', I s → P s a → step s a = some s' → I s') {s s' : σ} {as : List α} (hs : I s)
    (hP : Meets step P s as) (hrun : run step s as = some s') : I s' := by
  induction as generalizing s with
  | nil =>
    cases hrun
    exact hs
  | cons a as ih =>
    obtain ⟨t, ht, hrun⟩ := run_cons.1 hrun
    exact ih (hstep s a t hs hP.1 ht) (hP.2 t ht) hrun

/-- What every step keeps, a run keeps. -/
theorem preserved {I : σ → Prop} (hstep : ∀ s a s', I s → step s a = some s' → I s') {s s' : σ} {as : List α}
    (hs : I s) (hrun : run step s as = some s') : I s' :=
  invariant (P := fun _ _ => True) (fun s a s' hs _ hstep' => hstep s a s' hs hstep') hs
    (meets_of_forall (fun _ _ => trivial) s as) hrun

/-- A budget that every step that meets `P` diminishes bounds the length of a run. -/
theorem length_le_budget {P : α → Prop} {B : σ → Nat → Prop}
    (hstep : ∀ s a s' n, B s n → P a → step s a = some s' → ∃ n' < n, B s' n') {s s' : σ} {as : List α} {n : Nat}
    (hs : B s n) (hP : ∀ a ∈ as, P a) (hrun : run step s as = some s') : ∃ n', as.length + n' ≤ n ∧ B s' n' := by
  induction as generalizing s n with
  | nil =>
    cases hrun
    exact ⟨n, by simp, hs⟩
  | cons a as ih =>
    obtain ⟨t, ht, hrun⟩ := run_cons.1 hrun
    obtain ⟨n₁, hlt, hn₁⟩ := hstep s a t n hs (hP a List.mem_cons_self) ht
    obtain ⟨n₂, hle, hn₂⟩ := ih hn₁ (fun b hb => hP b (List.mem_cons_of_mem a hb)) hrun
    exact ⟨n₂, by rw [List.length_cons]; omega, hn₂⟩

/-! ### Two systems -/

variable {τ β : Type} {step' : τ → β → Option τ}

/-- Each action stands for a list of actions of the other system. -/
theorem run_flatMap {step' : σ → β → Option σ} {f : β → List α} (h : ∀ s b, step' s b = run step s (f b)) (s : σ)
    (bs : List β) : run step' s bs = run step s (bs.flatMap f) := by
  induction bs generalizing s with
  | nil => rfl
  | cons b bs ih =>
    refine Option.ext fun s' => ?_
    rw [List.flatMap_cons, run_append, run_cons, h]
    simp only [ih]

/-- Related states stay related, and enable the same actions, when some actions are left out in the second run, each of
which is always enabled in the first and keeps the states related. -/
theorem rel_run_filterMap {R : τ → σ → Prop} {visible : β → Option α}
    (hvisible : ∀ t s b a, R t s → visible b = some a → Option.Rel R (step' t b) (step s a))
    (hhidden : ∀ t s b, R t s → visible b = none → ∃ t', step' t b = some t' ∧ R t' s) {t : τ} {s : σ} (h : R t s)
    (bs : List β) : Option.Rel R (run step' t bs) (run step s (bs.filterMap visible)) := by
  induction bs generalizing t s with
  | nil => exact .some h
  | cons b bs ih =>
    cases hb : visible b with
    | none =>
      obtain ⟨t', ht', h'⟩ := hhidden t s b h hb
      rw [List.filterMap_cons_none hb, run, ht', Option.bind_some]
      exact ih h'
    | some a =>
      have hrel := hvisible t s b a h hb
      rw [List.filterMap_cons_some hb, run, run]
      generalize step' t b = x at hrel ⊢
      generalize step s a = y at hrel ⊢
      cases hrel with
      | some h' => exact ih h'
      | none => exact .none

end Run
