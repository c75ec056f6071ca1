import Anywise.Skipping

/-!
# Guards and later subclasses

`get_guardtarget` asks for the subclasses that exist when the guard is registered.  A guard of a base command is
therefore called for exactly those subclasses that were defined before (`late_subclass_unguarded`,
`guards_cover_existing`).
-/

namespace Anywise

/-- The registration stands in the journal, its registry is included after it, and its annotation names `T` or an
ancestor of `T`. -/
def Targets (J : List Entry) (g : ClassGraph) (T : Cls) (e : GuardReg) : Prop :=
  ∃ J₁ J₂, J = J₁ ++ .guard e :: J₂ ∧ .incl e.registry ∈ J₂ ∧ ∃ c ∈ e.annotation.leaves, g.Sub T c

namespace System

section

variable {bases : Nat → Option Cls × Option Cls} {w : World} {J : List Entry} {T : Cls} {e : GuardReg}

/-- A guard registered when `T` existed is in the guard list of `T`. -/
theorem mem_commandGuards (hJ : Journaled bases w J) (hT : T ≠ Cls.any) (he : Targets J w.graph T e)
    (hdef : T < e.graph.size) : e.metaOf T ∈ w.commandGuards T := by
  obtain ⟨J₁, J₂, rfl, hincl, c, hc, hsub⟩ := he
  have hmem : T ∈ e.targets :=
    (mem_gatherTypes e.gathered).2 ⟨c, hc, (hJ.graphs e (by simp)).sub T c hdef hsub⟩
  rw [hJ.commandGuards hT, guardList]
  refine List.mem_append_right _ (List.mem_map.2 ⟨e, List.mem_filter.2 ⟨mem_includedGuards hincl, ?_⟩, rfl⟩)
  simpa using hmem

end

/-- The guard object for a meta of the list. -/
theorem exists_resolved {metas : List GuardMeta} {objs : List GuardObj} (hr : ResolveTo metas objs) {m : GuardMeta}
    (hm : m ∈ metas) : ∃ x ∈ objs, m.guard.ResolvesTo x := by
  induction hr with
  | nil => cases hm
  | cons hx _ ih =>
    rcases List.mem_cons.1 hm with rfl | hm
    · exact ⟨_, List.mem_cons_self, hx⟩
    · obtain ⟨x, hmem, hres⟩ := ih hm
      exact ⟨x, List.mem_cons_of_mem _ hmem, hres⟩

/-- After every run: if `T` existed whenever a guard was registered for it or for an ancestor of it, in a registry
included afterwards, then all these guards are in the guard list of `T`, and a send of a `T` calls all of them before
its handler if the list skips no guard. -/
theorem guards_cover_existing (bases : Nat → Option Cls × Option Cls) (acts : List SysAct) (s : System)
    (hrun : Run.run step (new bases) acts = some s) (msg : Msg) (context scope : Option Nat) (m : FuncMeta)
    (objs : List GuardObj) (hi : HasInstances s.world msg.type)
    (hm : s.world.managers.handlerManager.handlerMetas.get? msg.type = some m)
    (hr : ResolveTo (s.world.commandGuards msg.type) objs)
    (hdef : ∀ e, Targets ((new bases).journal acts) s.world.graph msg.type e → msg.type < e.graph.size) :
    (∀ e, Targets ((new bases).journal acts) s.world.graph msg.type e →
      e.metaOf msg.type ∈ s.world.commandGuards msg.type) ∧
    (Chain.NoSkip objs →
      ∃ s' k' h outer, Run.run step s (passing s.calls.length msg context scope objs) = some s' ∧
        s'.calls[s.calls.length]? = some k' ∧ k'.phase = .handling h outer ∧ k'.deliveries = [(h, msg)] ∧
        ∀ e, Targets ((new bases).journal acts) s.world.graph msg.type e →
          ∃ x ∈ k'.entered, (e.ref msg.type).ResolvesTo x) := by
  have hJ := journaled_of_run hrun
  have hlist : ∀ e, Targets ((new bases).journal acts) s.world.graph msg.type e →
      e.metaOf msg.type ∈ s.world.commandGuards msg.type :=
    fun e he => mem_commandGuards hJ hi.1 he (hdef e he)
  refine ⟨hlist, fun hskip => ?_⟩
  obtain ⟨s', k', h, outer, hrun', hk', hp, hd, -, hent⟩ := passing_run s msg context scope m objs hi hm hr
  refine ⟨s', k', h, outer, hrun', hk', hp, hd, fun e he => ?_⟩
  obtain ⟨x, hx, hres⟩ := exists_resolved hr (hlist e he)
  rw [hent]
  exact ⟨x, (Chain.mem_visited hskip).2 hx, hres⟩

/-! ### A subclass defined after the guard -/

open UserApp

/-- A guard for `UserCommand` is registered, then `CreateUser` is defined and gets a handler. -/
def lateSubclass : List SysAct :=
  [.world (.define [Cls.object]), .world (.preHandle 0 .listed (guardFunc 3 UserCommand)),
    .world (.define [UserCommand]), .world (.register 0 .listed (handler 1 CreateUser)), .world (.incl 0)]

/-- The command reaches its handler, and the guard of its base is not called. -/
theorem late_subclass_unguarded :
    ∃ s k e, Run.run step (new bases) (lateSubclass ++ passing 0 ⟨0, CreateUser⟩ none none []) = some s ∧
      s.calls[0]? = some k ∧ k.deliveries.length = 1 ∧ k.entered = [] ∧
      Targets ((new bases).journal (lateSubclass ++ passing 0 ⟨0, CreateUser⟩ none none [])) s.world.graph
        CreateUser e := by
  have hrun : ((Run.run step (new bases) (lateSubclass ++ passing 0 ⟨0, CreateUser⟩ none none [])).bind fun s =>
      s.calls[0]?.map fun k => decide (k.deliveries.length = 1 ∧ k.entered = [] ∧
        s.world.graph.issubclass CreateUser UserCommand = true)) = some true := by
    decide +kernel
  obtain ⟨e, r, g, ord, h, hJ, hr, ha⟩ : ∃ e r g ord h,
      (new bases).journal (lateSubclass ++ passing 0 ⟨0, CreateUser⟩ none none []) =
        [.guard e, .handler r g ord h, .incl 0] ∧ e.registry = 0 ∧ e.annotation = .cls UserCommand :=
    ⟨_, _, _, _, _, rfl, rfl, rfl⟩
  obtain ⟨s, hs, hk⟩ := Option.bind_eq_some_iff.1 hrun
  obtain ⟨k, hk, hd⟩ := Option.map_eq_some_iff.1 hk
  obtain ⟨hdel, hent, hsub⟩ := of_decide_eq_true hd
  refine ⟨s, k, e, hs, hk, hdel, hent, [], [.handler r g ord h, .incl 0], hJ, by simp [hr], UserCommand, ?_,
    s.world.graph.issubclass_iff.1 hsub⟩
  simp [ha, Annotation.leaves]

/-- The guard for `UserCommand` is registered when its subclasses exist. -/
def earlySubclass : List SysAct :=
  setup ++ [.world (.preHandle 0 .listed (guardFunc 3 UserCommand)), .world (.incl 0)]

/-- The guard of the base is in the list of `CreateUser`. -/
theorem early_subclass_guarded :
    ∃ s, Run.run step (new bases) earlySubclass = some s ∧
      ∀ e, Targets ((new bases).journal earlySubclass) s.world.graph CreateUser e →
        e.metaOf CreateUser ∈ s.world.commandGuards CreateUser := by
  have hrun : ((Run.run step (new bases) earlySubclass).map fun s =>
      decide (HasInstances s.world CreateUser ∧
        (s.world.managers.handlerManager.handlerMetas.get? CreateUser).isSome ∧
        ResolveTo (s.world.commandGuards CreateUser) [.guard 0 0 CreateUser (some 3) none])) = some true := by
    decide +kernel
  obtain ⟨s, hs, hd⟩ := Option.map_eq_some_iff.1 hrun
  obtain ⟨hi, hm, hr⟩ := of_decide_eq_true hd
  obtain ⟨m, hm⟩ := Option.isSome_iff_exists.1 hm
  obtain ⟨r₁, g₁, ord₁, h₁, r₂, g₂, ord₂, h₂, e, hJ, hsize⟩ : ∃ r₁ g₁ ord₁ h₁ r₂ g₂ ord₂ h₂ e,
      (new bases).journal earlySubclass =
        [.handler r₁ g₁ ord₁ h₁, .handler r₂ g₂ ord₂ h₂, .guard e, .incl 0] ∧ e.graph.size = 7 :=
    ⟨_, _, _, _, _, _, _, _, _, rfl, rfl⟩
  refine ⟨s, hs, (guards_cover_existing bases earlySubclass s hs ⟨0, CreateUser⟩ none none m _ hi hm hr ?_).1⟩
  rintro e' ⟨J₁, J₂, hJ', -⟩
  have hmem : Entry.guard e' ∈ (new bases).journal earlySubclass := by rw [hJ']; simp
  rw [hJ] at hmem
  obtain rfl : e' = e := by simpa using hmem
  rw [hsize]
  decide

end System

end Anywise
