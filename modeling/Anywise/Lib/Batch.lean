import Mathlib.Data.List.TakeWhile

/-!
# Batches whose items may raise

A batch applies its items to a state one after another, up to the first that raises.  Suppose that an item which
raises leaves the state as it was, and that the items done before have no influence on which ones raise (`Steady`).
Then a batch does exactly the items before the first that raises (`state_run`), and a second batch after one that
was broken off does its items on top of those (`state_rerun`).
-/

namespace Batch

variable {σ α ε β : Type}

/-- The items in order; the first error is that of the batch. -/
def run (step : σ → α → σ × Except ε Unit) (s : σ) : List α → σ × Except ε Unit
  | [] => (s, .ok ())
  | a :: as =>
    match step s a with
    | (s, .error e) => (s, .error e)
    | (s, .ok ()) => run step s as

/-- The state after items none of which raises. -/
def after (step : σ → α → σ × Except ε Unit) (s : σ) (as : List α) : σ := as.foldl (fun s a => (step s a).1) s

/-- The item does not raise. -/
def passes (step : σ → α → σ × Except ε Unit) (s : σ) (a : α) : Bool := (step s a).2.isOk

/-- The items of a batch up to the first that raises. -/
def done (step : σ → α → σ × Except ε Unit) (s : σ) (as : List α) : List α := as.takeWhile (passes step s)

/-- An item that raises changes nothing, and all items keep to the states related by `R`, in which the same ones
raise. -/
structure Steady (step : σ → α → σ × Except ε Unit) (R : σ → σ → Prop) : Prop where
  equiv : Equivalence R
  raises : ∀ s a e, (step s a).2 = .error e → (step s a).1 = s
  keeps : ∀ s a, R s (step s a).1
  same : ∀ s t a, R s t → (step s a).2 = (step t a).2

variable {step : σ → α → σ × Except ε Unit}

theorem run_append (s : σ) (as bs : List α) :
    run step s (as ++ bs) =
      match run step s as with
      | (s, .error e) => (s, .error e)
      | (s, .ok ()) => run step s bs := by
  induction as generalizing s with
  | nil => rfl
  | cons a as ih =>
    rw [List.cons_append, run, run]
    rcases step s a with ⟨t, e | u⟩
    · rfl
    · exact ih t

theorem run_map (f : β → α) (s : σ) (bs : List β) : run step s (bs.map f) = run (fun s b => step s (f b)) s bs := by
  induction bs generalizing s with
  | nil => rfl
  | cons b bs ih =>
    rw [List.map_cons, run, run]
    rcases step s (f b) with ⟨t, e | u⟩
    · rfl
    · exact ih t

theorem passes_iff {s : σ} {a : α} : passes step s a = true ↔ (step s a).2 = .ok () := by
  unfold passes
  rcases (step s a).2 with e | u
  · simp [Except.isOk, Except.toBool]
  · simp [Except.isOk, Except.toBool]

theorem passes_of_mem_done {s : σ} {as : List α} {a : α} (ha : a ∈ done step s as) : passes step s a = true :=
  List.mem_takeWhile_imp ha

/-- The item after those done is one that raises. -/
theorem not_passes_of_done {s : σ} {as rest : List α} {a : α} (has : as = done step s as ++ a :: rest) :
    passes step s a = false := by
  have hdrop : as.dropWhile (passes step s) = a :: rest := by
    have hsplit := List.takeWhile_append_dropWhile (p := passes step s) (l := as)
    rw [← done] at hsplit
    exact List.append_cancel_left (hsplit.trans has)
  have hhead := List.head_dropWhile_not (passes step s) (l := as) (by simp [hdrop])
  simpa [hdrop] using hhead

namespace Steady

variable {R : σ → σ → Prop} (h : Steady step R)
include h

theorem passes_eq {s t : σ} (hst : R s t) : passes step s = passes step t := by
  funext a
  rw [passes, passes, h.same s t a hst]

theorem keeps_after (s : σ) (as : List α) : R s (after step s as) := by
  induction as generalizing s with
  | nil => exact h.equiv.refl s
  | cons a as ih => exact h.equiv.trans (h.keeps s a) (ih (step s a).1)

/-- A batch does the items before the first that raises. -/
theorem state_run (s : σ) (as : List α) : (run step s as).1 = after step s (done step s as) := by
  induction as generalizing s with
  | nil => rfl
  | cons a as ih =>
    have hnext := h.passes_eq (h.keeps s a)
    have hraises := h.raises s a
    rw [run, done, List.takeWhile_cons]
    cases hp : passes step s a with
    | false =>
      rw [passes] at hp
      rcases hstep : step s a with ⟨t, e | u⟩
      · rw [hstep] at hraises
        exact hraises e rfl
      · rw [hstep] at hp
        cases hp
    | true =>
      rw [hnext]
      have hok := passes_iff.1 hp
      rcases hstep : step s a with ⟨t, r⟩
      rw [hstep] at hok
      cases hok
      have hrest := ih t
      rw [hrest]
      simp [after, done, hstep]

theorem run_ok_iff (s : σ) (as : List α) : (run step s as).2 = .ok () ↔ done step s as = as := by
  rw [done, List.takeWhile_eq_self_iff]
  induction as generalizing s with
  | nil => simp [run]
  | cons a as ih =>
    have hnext := h.passes_eq (h.keeps s a)
    rw [run, List.forall_mem_cons, passes_iff, hnext]
    rcases hstep : step s a with ⟨t, e | u⟩
    · simp
    · rw [ih t]
      simp

/-- The error of a batch is that of the first item that raises. -/
theorem run_error (s : σ) {pre rest : List α} {a : α} (hpre : ∀ x ∈ pre, passes step s x = true)
    (ha : passes step s a = false) : (run step s (pre ++ a :: rest)).2 = (step s a).2 := by
  induction pre generalizing s with
  | nil =>
    rw [List.nil_append, run]
    rw [passes] at ha
    rcases hstep : step s a with ⟨t, e | u⟩
    · rfl
    · rw [hstep] at ha
      cases ha
  | cons x pre ih =>
    have hnext := h.passes_eq (h.keeps s x)
    have hsame := h.same s (step s x).1 a (h.keeps s x)
    obtain ⟨hx, hpre⟩ := List.forall_mem_cons.1 hpre
    have hok := passes_iff.1 hx
    rw [hnext] at hpre ha
    have hrest := ih (step s x).1 hpre ha
    rw [List.cons_append, run, hsame, ← hrest]
    rcases hstep : step s x with ⟨t, r⟩
    rw [hstep] at hok
    cases hok
    rfl

/-- In related states batches raise the same. -/
theorem result_congr {s t : σ} (hst : R s t) (as : List α) : (run step s as).2 = (run step t as).2 := by
  induction as generalizing s t with
  | nil => rfl
  | cons a as ih =>
    have hsame := h.same s t a hst
    have hs := h.keeps s a
    have ht := h.keeps t a
    rw [run, run]
    rcases hs' : step s a with ⟨s', e | u⟩ <;> rcases ht' : step t a with ⟨t', e' | u'⟩ <;>
      rw [hs', ht'] at hsame
    · exact hsame
    · cases hsame
    · cases hsame
    · rw [hs'] at hs
      rw [ht'] at ht
      exact ih (h.equiv.trans (h.equiv.symm hs) (h.equiv.trans hst ht))

theorem keeps_run (s : σ) (as : List α) : R s (run step s as).1 := by
  rw [h.state_run]
  exact h.keeps_after s _

/-- A batch after another one, which may have been broken off. -/
theorem state_rerun (s : σ) (as bs : List α) :
    (run step (run step s as).1 bs).1 = after step s (done step s as ++ done step s bs) := by
  rw [h.state_run, h.state_run, done, done, ← h.passes_eq (h.keeps_after s _), after, after, after,
    List.foldl_append]
  rfl

/-- What an observation becomes by each item, it becomes by a batch. -/
theorem obs_after {γ : Type} (obs : σ → γ) (add : γ → α → γ) {s : σ}
    (hadd : ∀ t a, R s t → (step t a).2 = .ok () → obs (step t a).1 = add (obs t) a) {as : List α}
    (has : ∀ a ∈ as, passes step s a = true) : obs (after step s as) = as.foldl add (obs s) := by
  have hall : ∀ t, R s t → obs (after step t as) = as.foldl add (obs t) := by
    induction as with
    | nil => exact fun t _ => rfl
    | cons a as ih =>
      intro t hst
      obtain ⟨ha, has⟩ := List.forall_mem_cons.1 has
      have hok : (step t a).2 = .ok () := (h.same s t a hst).symm.trans (passes_iff.1 ha)
      have hrest := ih has (step t a).1 (h.equiv.trans hst (h.keeps t a))
      rw [List.foldl_cons, ← hadd t a hst hok, ← hrest]
      rfl
  exact hall s (h.equiv.refl s)

end Steady

end Batch
