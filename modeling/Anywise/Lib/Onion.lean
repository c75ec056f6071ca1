import Mathlib.Data.List.Basic

/-!
# Layers around a core

A call goes through layers from the outside in, reaches the core, and comes back through the same layers.  A layer
says which events it emits when it is entered, with which results it may finish without going further in, and
what it does with the result of the layer inside it.  `Runs` is what a complete call may emit and answer.

A call in progress stands inside some layers, innermost first in `st`.  `Completes` says how it may go on from
where it stands; whatever it does from there is one of the complete calls (`runs_of_before`).
-/

namespace Onion

variable {α ε ρ : Type}

/-- The behaviour of layers `α` that emit events `ε` and answer results `ρ`. -/
structure Layers (α ε ρ : Type) where
  enter : α → List ε
  abort : α → ρ → Prop
  leave : α → ρ → List ε → ρ → Prop

/-- Complete calls through the layers `l` (outermost first): the events and the result. -/
inductive Runs (S : Layers α ε ρ) (core : List ε → ρ → Prop) : List α → List ε → ρ → Prop
  | core {tr : List ε} {r : ρ} (h : core tr r) : Runs S core [] tr r
  | abort {a : α} {l : List α} {r : ρ} (h : S.abort a r) : Runs S core (a :: l) (S.enter a) r
  | through {a : α} {l : List α} {tr ev : List ε} {r r' : ρ} (h : Runs S core l tr r) (ha : S.leave a r ev r') :
      Runs S core (a :: l) (S.enter a ++ tr ++ ev) r'

/-- The way out through the layers `st` (innermost first) with the result `r`. -/
inductive Unwinds (S : Layers α ε ρ) : List α → ρ → List ε → ρ → Prop
  | nil (r : ρ) : Unwinds S [] r [] r
  | cons {a : α} {st : List α} {tr ev : List ε} {r r' r'' : ρ} (ha : S.leave a r ev r')
      (h : Unwinds S st r' tr r'') : Unwinds S (a :: st) r (ev ++ tr) r''

/-- Where a call in progress stands, the layers around it in `st`. -/
inductive Position (α ρ : Type)
  /-- entered `a`, with the layers `ahead` still to go through -/
  | before (a : α) (st ahead : List α)
  /-- in the core -/
  | core (st : List α)
  /-- on the way out with a result -/
  | out (st : List α) (r : ρ)

variable {S : Layers α ε ρ} {core : List ε → ρ → Prop}

/-- How a call may go on from a position: the events still to come and the result. -/
inductive Completes (S : Layers α ε ρ) (core : List ε → ρ → Prop) : Position α ρ → List ε → ρ → Prop
  | abort {a : α} {st ahead : List α} {tr : List ε} {r r' : ρ} (h : S.abort a r) (hst : Unwinds S st r tr r') :
      Completes S core (.before a st ahead) tr r'
  | through {a : α} {st ahead : List α} {tr tr' : List ε} {r r' : ρ} (h : Runs S core ahead tr r)
      (hst : Unwinds S (a :: st) r tr' r') : Completes S core (.before a st ahead) (tr ++ tr') r'
  | core {st : List α} {tr : List ε} {r r' : ρ} (hst : Unwinds S st r tr r') :
      Completes S core (.core st) tr r'
  | out {st : List α} {tr : List ε} {r r' : ρ} (hst : Unwinds S st r tr r') :
      Completes S core (.out st r) tr r'

theorem Runs.unwind {l st : List α} {tr tr' : List ε} {r r' : ρ} (h : Runs S core l tr r)
    (hst : Unwinds S st r tr' r') :
    Runs S core (st.reverse ++ l) (st.reverse.flatMap S.enter ++ tr ++ tr') r' := by
  induction hst generalizing l tr with
  | nil r => simpa using h
  | cons ha _ ih => simpa using ih (.through h ha)

/-- Going on from a freshly entered layer completes a call through all layers. -/
theorem runs_of_before {a : α} {st ahead : List α} {tr : List ε} {r : ρ}
    (h : Completes S core (.before a st ahead) tr r) :
    Runs S core (st.reverse ++ a :: ahead) (st.reverse.flatMap S.enter ++ S.enter a ++ tr) r := by
  cases h with
  | abort h hst => exact (Runs.abort h).unwind hst
  | through h hst => simpa using h.unwind hst

/-- Going one layer further in. -/
theorem completes_enter {a b : α} {st ahead : List α} {tr : List ε} {r : ρ}
    (h : Completes S core (.before b (a :: st) ahead) tr r) :
    Completes S core (.before a st (b :: ahead)) (S.enter b ++ tr) r := by
  cases h with
  | abort h hst => exact .through (.abort h) hst
  | through h hst =>
    cases hst with
    | cons ha hst => simpa using Completes.through (.through h ha) hst

/-- Reaching the core. -/
theorem completes_core {a : α} {st : List α} {ev tr : List ε} {r : ρ} (hev : ∀ r, core ev r)
    (h : Completes S core (.core (a :: st)) tr r) : Completes S core (.before a st []) (ev ++ tr) r := by
  cases h with
  | core hst => exact .through (.core (hev _)) hst

/-! ### A call can always go on -/

section Total

variable (hleave : ∀ a r, ∃ ev r', S.leave a r ev r')

include hleave

theorem exists_unwinds (st : List α) (r : ρ) : ∃ tr r', Unwinds S st r tr r' := by
  induction st generalizing r with
  | nil => exact ⟨[], r, .nil r⟩
  | cons a st ih =>
    obtain ⟨ev, r₁, ha⟩ := hleave a r
    obtain ⟨tr, r₂, h⟩ := ih r₁
    exact ⟨ev ++ tr, r₂, .cons ha h⟩

theorem exists_runs (hcore : ∃ tr r, core tr r) (l : List α) : ∃ tr r, Runs S core l tr r := by
  induction l with
  | nil =>
    obtain ⟨tr, r, h⟩ := hcore
    exact ⟨tr, r, .core h⟩
  | cons a l ih =>
    obtain ⟨tr, r, h⟩ := ih
    obtain ⟨ev, r', ha⟩ := hleave a r
    exact ⟨_, _, .through h ha⟩

theorem exists_completes (hcore : ∃ tr r, core tr r) (p : Position α ρ) : ∃ tr r, Completes S core p tr r := by
  cases p with
  | before a st ahead =>
    obtain ⟨tr, r, h⟩ := exists_runs hleave hcore ahead
    obtain ⟨tr', r', hst⟩ := exists_unwinds hleave (a :: st) r
    exact ⟨_, _, .through h hst⟩
  | core st =>
    obtain ⟨_, r, _⟩ := hcore
    obtain ⟨tr', r', hst⟩ := exists_unwinds hleave st r
    exact ⟨_, _, .core hst⟩
  | out st r =>
    obtain ⟨tr', r', hst⟩ := exists_unwinds hleave st r
    exact ⟨_, _, .out hst⟩

end Total

end Onion
