import Anywise.Lib.Objects
import Anywise.Listeners

/-!
# Registries shared by several `Anywise`

A list of metas is an object, which a registration extends in place.  `include_listeners` copies the lists of the
registry before it stores them, so no list belongs to two holders (`Objects.Separated`).  Hence every `Anywise` has
the lists it would have if it were the only one (`shows_run`), and only an include into it changes them
(`listeners_kept`).
-/

namespace Anywise

/-! ### Listener lists as objects -/

/-- Who holds lists of metas: the event mapping of a registry, or the listeners of an `Anywise`. -/
inductive Holder
  | registry (r : Nat)
  | anywise (a : Nat)
  deriving DecidableEq

/-- The classes of the process, and the lists of its registries and `Anywise` instances. -/
structure Shared where
  graph : ClassGraph
  lists : Objects Holder Cls FuncMeta

inductive SharedAct
  /-- a `class` statement -/
  | define (bases : List Cls)
  /-- `registry(handler)` -/
  | register (r : Nat) (ord : SetOrder) (handler : Target)
  /-- `anywise.include(registry)` -/
  | incl (a r : Nat)

/-- What the action is for the `Anywise` number `a`. -/
def SharedAct.worldAct (a : Nat) : SharedAct → Option WorldAct
  | .define bs => some (.define bs)
  | .register r ord h => some (.register r ord h)
  | .incl a' r => if a' = a then some (.incl r) else none

namespace Shared

def new : Shared := ⟨.builtin, .empty⟩

/-- The loop of `_register_eventlisteners`. -/
def appendMetas (l : Objects Holder Cls FuncMeta) (r : Nat) (metas : List FuncMeta) : Objects Holder Cls FuncMeta :=
  metas.foldl (fun l m => l.append (.registry r) m.messageType [m]) l

def step (bases : Nat → Option Cls × Option Cls) (s : Shared) : SharedAct → Shared
  | .define bs => { s with graph := s.graph.define bs }
  | .register r ord h => { s with lists := appendMetas s.lists r (listenerMetas s.graph ord (bases r) h) }
  | .incl a r => { s with lists := s.lists.merge (.anywise a) (.registry r) }

def run (bases : Nat → Option Cls × Option Cls) (s : Shared) (acts : List SharedAct) : Shared :=
  acts.foldl (step bases) s

/-- The listeners of type `T` that the holder has. -/
def listeners (s : Shared) (holder : Holder) (T : Cls) : Option (List FuncMeta) := (s.lists.view holder).get? T

/-- The lists of the registries and of the `Anywise` number `a` are those of the world. -/
structure Shows (a : Nat) (s : Shared) (w : World) : Prop where
  graph : s.graph = w.graph
  separated : s.lists.Separated
  events : ∀ r T, s.listeners (.registry r) T = (w.registries r).eventMapping.get? T
  listeners : ∀ T, s.listeners (.anywise a) T = w.managers.listenerManager.listenerMetas.get? T

/-! ### One action -/

section

variable {bases : Nat → Option Cls × Option Cls} {s : Shared} {w : World} {J : List Entry} {a : Nat}

/-- The loop over the metas, in the lists and in a dictionary of values. -/
private theorem appendMetas_spec {l : Objects Holder Cls FuncMeta} (hl : l.Separated) (r : Nat) (metas : List FuncMeta) :
    (appendMetas l r metas).Separated ∧
      (∀ d : Dict Cls (List FuncMeta), (∀ T, (l.view (.registry r)).get? T = d.get? T) →
        ∀ T, ((appendMetas l r metas).view (.registry r)).get? T = (Anywise.appendMetas d metas).get? T) ∧
      ∀ holder, holder ≠ .registry r → ∀ T,
        ((appendMetas l r metas).view holder).get? T = (l.view holder).get? T := by
  induction metas generalizing l with
  | nil => exact ⟨hl, fun d hd T => hd T, fun _ _ _ => rfl⟩
  | cons m metas ih =>
    have hget := Objects.get?_append hl (.registry r) m.messageType [m]
    obtain ⟨hsep, hown, hother⟩ := ih (Objects.separated_append hl (.registry r) m.messageType [m])
    refine ⟨hsep, fun d hd T => hown (d.extend m.messageType [m]) (fun U => ?_) T, fun holder hne T => ?_⟩
    · rw [hget, Dict.extend, Dict.get?_set, Dict.getD, Dict.getD, hd]
      by_cases hU : m.messageType = U <;> simp [hU, hd]
    · refine (hother holder hne T).trans ?_
      rw [hget, if_neg fun h => hne h.1.symm]

theorem shows_new (bases : Nat → Option Cls × Option Cls) (a : Nat) : Shows a new (.new bases) where
  graph := rfl
  separated := Objects.separated_empty
  events _ _ := rfl
  listeners _ := rfl

private theorem Shows.define (h : Shows a s w) (bs : List Cls) :
    Shows a (s.step bases (.define bs)) (w.step (.define bs)) := by
  have hgraph : (w.step (.define bs)).graph = w.graph.define bs := by
    simp only [World.step, World.exec]
    by_cases hd : w.graph.Definable bs
    · rw [if_pos hd]
    · rw [if_neg hd, ClassGraph.define, dif_neg hd]
  have hrest : (w.step (.define bs)).registries = w.registries ∧ (w.step (.define bs)).managers = w.managers := by
    simp only [World.step, World.exec]
    split <;> exact ⟨rfl, rfl⟩
  refine ⟨?_, h.separated, fun r T => ?_, fun T => ?_⟩
  · rw [hgraph, ← h.graph]
    rfl
  · rw [hrest.1]
    exact h.events r T
  · rw [hrest.2]
    exact h.listeners T

private theorem Shows.register (h : Shows a s w) (hJ : Journaled bases w J) (r : Nat) (ord : SetOrder)
    (handler : Target) : Shows a (s.step bases (.register r ord handler)) (w.step (.register r ord handler)) := by
  obtain ⟨hsep, hown, hother⟩ := appendMetas_spec h.separated r (listenerMetas s.graph ord (bases r) handler)
  have hb : ((w.registries r).commandBase, (w.registries r).eventBase) = bases r := by
    rw [(hJ.registry r).commandBase, (hJ.registry r).eventBase]
  have hev := MessageRegistry._register_events w.graph ord (w.registries r) handler
  rw [hb, ← h.graph] at hev
  refine ⟨h.graph, hsep, fun i T => ?_, fun T => ?_⟩
  · show _ = (Function.update w.registries r _ i).eventMapping.get? T
    by_cases hi : i = r
    · subst hi
      rw [Function.update_self]
      refine (hown (w.registries i).eventMapping (h.events i) T).trans ?_
      rw [← hev, h.graph]
    · rw [Function.update_of_ne hi]
      refine (hother (.registry i) ?_ T).trans (h.events i T)
      intro heq
      cases heq
      exact hi rfl
  · refine (hother (.anywise a) ?_ T).trans (h.listeners T)
    intro heq
    cases heq

private theorem Shows.incl (h : Shows a s w) (r : Nat) :
    Shows a (s.step bases (.incl a r)) (w.step (.incl r)) where
  graph := h.graph
  separated := Objects.separated_merge h.separated _ _
  events i T := by
    refine (Objects.get?_merge h.separated _ _ _ T).trans ?_
    rw [if_neg (by simp)]
    exact h.events i T
  listeners T := by
    refine (Objects.get?_merge h.separated _ _ _ T).trans ?_
    rw [if_pos rfl]
    show _ = (Dict.get? (List.foldl _ _ _) T)
    rw [Dict.get?_foldl_extend_items, Dict.getD, Dict.getD]
    have hev : (s.lists.view (.registry r)).get? T = _ := h.events r T
    have hli : (s.lists.view (.anywise a)).get? T = _ := h.listeners T
    rw [hev, hli]

/-- What happens to the other `Anywise` instances does not concern this one. -/
private theorem Shows.other (h : Shows a s w) {a' : Nat} (ha : a' ≠ a) (r : Nat) :
    Shows a (s.step bases (.incl a' r)) w where
  graph := h.graph
  separated := Objects.separated_merge h.separated _ _
  events i T := by
    refine (Objects.get?_merge h.separated _ _ _ T).trans ?_
    rw [if_neg (by simp)]
    exact h.events i T
  listeners T := by
    refine (Objects.get?_merge h.separated _ _ _ T).trans ?_
    rw [if_neg (by simpa using ha)]
    exact h.listeners T

/-! ### Runs -/

/-- After every run, an `Anywise` has the lists of the world in which it is the only one. -/
theorem shows_run (bases : Nat → Option Cls × Option Cls) (a : Nat) (acts : List SharedAct) :
    Shows a (new.run bases acts) ((World.new bases).run (acts.filterMap (SharedAct.worldAct a))) := by
  induction acts using List.reverseRecOn with
  | nil => exact shows_new bases a
  | append_singleton acts act ih =>
    have hJ := journaled_run bases (acts.filterMap (SharedAct.worldAct a))
    have hrun : new.run bases (acts ++ [act]) = (new.run bases acts).step bases act := List.foldl_append
    rw [hrun, List.filterMap_append, World.run_append]
    cases act with
    | define bs => exact ih.define bs
    | register r ord h => exact ih.register hJ r ord h
    | incl a' r =>
      by_cases ha : a' = a
      · subst ha
        have hact : [SharedAct.incl a' r].filterMap (SharedAct.worldAct a') = [.incl r] := by
          simp [SharedAct.worldAct]
        rw [hact]
        exact ih.incl r
      · have hact : [SharedAct.incl a' r].filterMap (SharedAct.worldAct a) = [] := by simp [SharedAct.worldAct, ha]
        rw [hact]
        exact ih.other ha r

private theorem step_keeps (hs : s.lists.Separated) {act : SharedAct} (hno : ∀ r, act ≠ .incl a r) (T : Cls) :
    (s.step bases act).listeners (.anywise a) T = s.listeners (.anywise a) T := by
  cases act with
  | define bs => rfl
  | register r ord h =>
    obtain ⟨-, -, hother⟩ := appendMetas_spec hs r (listenerMetas s.graph ord (bases r) h)
    refine hother (.anywise a) ?_ T
    intro heq
    cases heq
  | incl a' r =>
    refine (Objects.get?_merge hs _ _ _ T).trans ?_
    rw [if_neg]
    · rfl
    · intro heq
      cases heq
      exact hno r rfl

/-- Only an include into an `Anywise` changes its lists. -/
theorem listeners_kept (bases : Nat → Option Cls × Option Cls) (a : Nat) (acts acts' : List SharedAct)
    (hno : ∀ r, .incl a r ∉ acts') (T : Cls) :
    (new.run bases (acts ++ acts')).listeners (.anywise a) T = (new.run bases acts).listeners (.anywise a) T := by
  induction acts' using List.reverseRecOn with
  | nil => rw [List.append_nil]
  | append_singleton acts' act ih =>
    have hrun : new.run bases (acts ++ (acts' ++ [act])) = (new.run bases (acts ++ acts')).step bases act := by
      rw [← List.append_assoc]
      exact List.foldl_append
    have hsep := (shows_run bases a (acts ++ acts')).separated
    rw [hrun, step_keeps hsep (fun r heq => hno r (by simp [heq])) T]
    exact ih fun r hr => hno r (by simp [hr])

end

end Shared

end Anywise
