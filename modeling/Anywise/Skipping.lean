import Anywise.Soundness

/-!
# Guards that occur twice

A guard object has one link.  In a guard list in which an object occurs twice, as it does when its registry is
included twice, linking the later occurrence overwrites the link of the earlier one, and the guards in between are
not called (`included_twice_skips`).  A send whose guards all pass calls every guard of its list exactly when the
list satisfies `Chain.NoSkip` (`calls_all_iff`).
-/

namespace Anywise

namespace System

/-- The actions of an undisturbed send whose guards all pass on, up to the call of the handler. -/
def passing (c : Nat) (msg : Msg) (context scope : Option Nat) (objs : List GuardObj) : List SysAct :=
  [.start .send msg context scope, .call c .lookup, .call c .resolveMeta, .call c .readGuards] ++
    if objs = [] then []
    else .call c (.chain objs) :: List.replicate (Chain.visited objs).length (.call c .callNext)

/-- In every state, a send whose guards all pass on reaches the handler, on the walk over the list it links. -/
theorem passing_run (s : System) (msg : Msg) (context scope : Option Nat) (m : FuncMeta) (objs : List GuardObj)
    (hi : HasInstances s.world msg.type)
    (hm : s.world.managers.handlerManager.handlerMetas.get? msg.type = some m)
    (hr : ResolveTo (s.world.commandGuards msg.type) objs) :
    ∃ s' k' h outer, Run.run step s (passing s.calls.length msg context scope objs) = some s' ∧
      s'.calls[s.calls.length]? = some k' ∧ k'.phase = .handling h outer ∧ k'.deliveries = [(h, msg)] ∧
      h.funcMeta = m ∧ k'.entered = Chain.visited objs := by
  obtain ⟨t₀, hs₀, hk₀, hw₀, -⟩ := step_start hi .send context scope
  obtain ⟨t₁, hs₁, hk₁, hw₁, -⟩ := step_call hk₀ (.found rfl rfl (hw₀ ▸ hm))
  obtain ⟨t₂, hs₂, hk₂, hw₂, -⟩ := step_call hk₁ (.resolve rfl)
  have hworld : t₂.world = s.world := by rw [hw₂, hw₁, hw₀]
  by_cases hnil : s.world.commandGuards msg.type = []
  · -- no guards: the handler is called at once
    rw [hnil] at hr
    obtain rfl : objs = [] := List.forall₂_nil_left_iff.1 hr
    obtain ⟨t₃, hs₃, hk₃, -⟩ := step_call hk₂ (.unguarded rfl (hworld ▸ hnil))
    refine ⟨t₃, _, _, _, ?_, hk₃, rfl, rfl, rfl, rfl⟩
    simp [passing, Run.run, hs₀, hs₁, hs₂, hs₃]
  · obtain ⟨head, rest, rfl⟩ : ∃ head rest, objs = head :: rest := by
      cases objs with
      | nil => exact absurd (List.forall₂_nil_right_iff.1 hr) hnil
      | cons head rest => exact ⟨head, rest, rfl⟩
    obtain ⟨t₃, hs₃, hk₃, -, -⟩ := step_call hk₂ (.guarded rfl (hworld ▸ hnil))
    obtain ⟨t₄, hs₄, hk₄, -, hl₄⟩ := step_call hk₃ (.chain rfl (hworld ▸ hr))
    have hpath := Chain.path_linkFrom t₃.links head rest
      (⟨m, s.calls.length, (begin s.calls.length .send msg context scope).scope⟩ : Resolved)
    obtain ⟨tail, htail⟩ := Chain.visited_cons head rest
    rw [htail, ← hl₄] at hpath
    obtain ⟨s', k', outer, hrun, hc, hph, -, hent, hdel⟩ := pass_along hk₄ rfl hpath
    refine ⟨s', k', _, outer, ?_, hc, hph, ?_, rfl, ?_⟩
    · simpa [passing, Run.run, hs₀, hs₁, hs₂, hs₃, hs₄, htail] using hrun
    · rw [hdel, Call.deliveries_guard]
      rfl
    · rw [hent, htail]
      rfl

/-- It has called all guards of its list by then exactly when the list skips none. -/
theorem calls_all_iff (s : System) (msg : Msg) (context scope : Option Nat) (m : FuncMeta) (objs : List GuardObj)
    (hi : HasInstances s.world msg.type)
    (hm : s.world.managers.handlerManager.handlerMetas.get? msg.type = some m)
    (hr : ResolveTo (s.world.commandGuards msg.type) objs) :
    ∃ s' k' h outer, Run.run step s (passing s.calls.length msg context scope objs) = some s' ∧
      s'.calls[s.calls.length]? = some k' ∧ k'.phase = .handling h outer ∧ k'.deliveries = [(h, msg)] ∧
      h.funcMeta = m ∧ ((∀ g ∈ objs, g ∈ k'.entered) ↔ Chain.NoSkip objs) := by
  obtain ⟨s', k', h, outer, hrun, hk', hp, hd, hh, hent⟩ := passing_run s msg context scope m objs hi hm hr
  exact ⟨s', k', h, outer, hrun, hk', hp, hd, hh, by rw [hent, Chain.visited_all_iff]⟩

/-! ### A registry that is included twice -/

open UserApp

/-- The guards of registries 0 and 1 for `CreateUser`. -/
def firstGuard : GuardObj := .guard 0 0 CreateUser (some 3) none

def secondGuard : GuardObj := .guard 1 0 CreateUser (some 4) none

/-- Both registries have a guard for `CreateUser`, and are included in the given order. -/
def including (registries : List Nat) : List SysAct :=
  setup ++ [.world (.preHandle 0 .listed (guardFunc 3 CreateUser)),
    .world (.preHandle 1 .listed (guardFunc 4 CreateUser))] ++ registries.map fun r => .world (.incl r)

/-- With registry 0 included before and after registry 1, the guard of registry 1 is not called. -/
theorem included_twice_skips :
    ∃ s k, Run.run step (new bases)
        (including [0, 1, 0] ++ passing 0 ⟨0, CreateUser⟩ none none [firstGuard, secondGuard, firstGuard]) = some s ∧
      s.calls[0]? = some k ∧ ResolveTo k.listed k.guards ∧ secondGuard ∈ k.guards ∧ k.deliveries.length = 1 ∧
      secondGuard ∉ k.entered := by
  have hrun : ((Run.run step (new bases)
      (including [0, 1, 0] ++ passing 0 ⟨0, CreateUser⟩ none none [firstGuard, secondGuard, firstGuard])).bind
        fun s => s.calls[0]?.map fun k =>
          decide (ResolveTo k.listed k.guards ∧ secondGuard ∈ k.guards ∧ k.deliveries.length = 1 ∧
            secondGuard ∉ k.entered)) = some true := by
    decide +kernel
  obtain ⟨s, hs, hk⟩ := Option.bind_eq_some_iff.1 hrun
  obtain ⟨k, hk, hd⟩ := Option.map_eq_some_iff.1 hk
  exact ⟨s, k, hs, hk, of_decide_eq_true hd⟩

/-- With both registries included once, both guards are called. -/
theorem included_once_calls_all :
    ∃ s s' k' h outer, Run.run step (new bases) (including [0, 1]) = some s ∧
      Run.run step s (passing s.calls.length ⟨0, CreateUser⟩ none none [firstGuard, secondGuard]) = some s' ∧
      s'.calls[s.calls.length]? = some k' ∧ k'.phase = .handling h outer ∧
      ∀ g ∈ [firstGuard, secondGuard], g ∈ k'.entered := by
  have hrun : ((Run.run step (new bases) (including [0, 1])).map fun s =>
      decide (HasInstances s.world CreateUser ∧
        (s.world.managers.handlerManager.handlerMetas.get? CreateUser).isSome ∧
        ResolveTo (s.world.commandGuards CreateUser) [firstGuard, secondGuard])) = some true := by
    decide +kernel
  obtain ⟨s, hs, hd⟩ := Option.map_eq_some_iff.1 hrun
  obtain ⟨hi, hm, hr⟩ := of_decide_eq_true hd
  obtain ⟨m, hm⟩ := Option.isSome_iff_exists.1 hm
  obtain ⟨s', k', h, outer, hrun', hk', hp, -, -, hall⟩ :=
    calls_all_iff s ⟨0, CreateUser⟩ none none m [firstGuard, secondGuard] hi hm hr
  exact ⟨s, s', k', h, outer, hs, hrun', hk', hp, hall.2 (by decide)⟩

end System

end Anywise
