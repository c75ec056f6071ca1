import Anywise.Layers
import Anywise.Publishing

/-!
# Inspection

`Inspect` reads the managers by ways of its own.  Where a send or a publish raises for a missing key, `handler` and
`listeners` give `None`, the latter also for an empty list; `guards` reads a `defaultdict`, which inserts the key.
So two systems are compared that differ at most in such keys (`World.Alike`).

* Inspections can be left out of a run: the other actions are enabled as before and lead to the same calls.
* In a reachable state no listener list is empty, and what an inspection shows is what a send or publish finds.
-/

namespace Anywise

/-! ### `Inspect` -/

/-- `get_handler(msg_type)` -/
def HandlerManager.getHandler (hm : HandlerManager) (msgType : Cls) : Option Func :=
  match hm.handlerMetas.get? msgType with
  | none => none
  | some funcMeta => some funcMeta.handler

/-- `get_guards(msg_type)`, with the manager afterwards: reading `self._guard_mapping[msg_type]` inserts the key. -/
def HandlerManager.getGuards (hm : HandlerManager) (msgType : Cls) : HandlerManager × List GuardRef :=
  (hm.readGuards msgType, (hm.guardMapping.getD msgType).map GuardMeta.guard)

/-- `get_listeners(msg_type)` -/
def ListenerManager.getListeners (lm : ListenerManager) (msgType : Cls) : List Func :=
  match lm.listenerMetas.get? msgType with
  | none => []
  | some listenerMetas => listenerMetas.map FuncMeta.handler

/-- What the weak references of an `Inspect` lead to, `none` when the manager is gone. -/
structure Inspect where
  hm : Option HandlerManager
  lm : Option ListenerManager

namespace Inspect

/-- `listeners(key)` -/
def listeners (i : Inspect) (key : Cls) : Option (List Func) :=
  match i.lm with
  | none => none
  | some lm =>
    match lm.getListeners key with
    | [] => none
    | f :: fs => some (f :: fs)

/-- `handler(key)` -/
def handler (i : Inspect) (key : Cls) : Option Func :=
  match i.hm with
  | none => none
  | some hm => hm.getHandler key

/-- `guards(key)`, with the managers afterwards. -/
def guards (i : Inspect) (key : Cls) : Inspect × List GuardRef :=
  match i.hm with
  | none => (i, [])
  | some hm =>
    let globalGuards := hm.globalGuards.map GuardMeta.guard
    let commandGuards := hm.getGuards key
    ({ i with hm := some commandGuards.1 }, globalGuards ++ commandGuards.2)

end Inspect

inductive Inspection
  | handler (key : Cls)
  | listeners (key : Cls)
  | guards (key : Cls)

namespace World

/-- `anywise.inspect`, while the `Anywise` is alive. -/
def inspect (w : World) : Inspect := ⟨some w.managers.handlerManager, some w.managers.listenerManager⟩

/-- The world after an inspection. -/
def inspected (w : World) : Inspection → World
  | .handler _ | .listeners _ => w
  | .guards key =>
    match (w.inspect.guards key).1.hm with
    | none => w
    | some hm => { w with managers := { w.managers with handlerManager := hm } }

/-- What the guards of an inspection were read from. -/
theorem inspect_guards (w : World) (T : Cls) :
    (w.inspect.guards T).2 = (w.commandGuards T).map GuardMeta.guard := by
  simp [Inspect.guards, inspect, HandlerManager.getGuards, commandGuards, HandlerManager.commandGuards]

/-! ### Worlds that differ in keys without guards -/

structure Alike (w v : World) : Prop where
  graph : v.graph = w.graph
  registries : v.registries = w.registries
  handlerMetas : v.managers.handlerManager.handlerMetas = w.managers.handlerManager.handlerMetas
  globalGuards : v.managers.handlerManager.globalGuards = w.managers.handlerManager.globalGuards
  guards : ∀ T, v.managers.handlerManager.guardMapping.getD T = w.managers.handlerManager.guardMapping.getD T
  listenerManager : v.managers.listenerManager = w.managers.listenerManager

namespace Alike

variable {u v w : World}

theorem refl (w : World) : w.Alike w := ⟨rfl, rfl, rfl, rfl, fun _ => rfl, rfl⟩

theorem symm (h : w.Alike v) : v.Alike w :=
  ⟨h.graph.symm, h.registries.symm, h.handlerMetas.symm, h.globalGuards.symm, fun T => (h.guards T).symm,
    h.listenerManager.symm⟩

theorem trans (h : w.Alike v) (h' : v.Alike u) : w.Alike u :=
  ⟨h'.graph.trans h.graph, h'.registries.trans h.registries, h'.handlerMetas.trans h.handlerMetas,
    h'.globalGuards.trans h.globalGuards, fun T => (h'.guards T).trans (h.guards T),
    h'.listenerManager.trans h.listenerManager⟩

theorem commandGuards (h : w.Alike v) (T : Cls) : v.commandGuards T = w.commandGuards T := by
  simp only [World.commandGuards, HandlerManager.commandGuards, h.globalGuards, h.guards]

/-- Every action keeps worlds alike: an include reads and extends the lists of the keys, never the keys. -/
theorem step (h : w.Alike v) (a : WorldAct) : (w.step a).Alike (v.step a) := by
  obtain ⟨g, regs, ⟨⟨metas, d, globals⟩, lm⟩⟩ := w
  obtain ⟨g', regs', ⟨⟨metas', d', globals'⟩, lm'⟩⟩ := v
  obtain ⟨hg, hr, hm, hgl, hd, hl⟩ := h
  simp only at hg hr hm hgl hd hl
  subst hg hr hm hgl hl
  cases a with
  | define bs =>
    simp only [World.step, exec]
    split
    · exact ⟨rfl, rfl, rfl, rfl, hd, rfl⟩
    · exact ⟨rfl, rfl, rfl, rfl, hd, rfl⟩
  | register r ord t => exact ⟨rfl, rfl, rfl, rfl, hd, rfl⟩
  | preHandle r ord f => exact ⟨rfl, rfl, rfl, rfl, hd, rfl⟩
  | postHandle r ord f => exact ⟨rfl, rfl, rfl, rfl, hd, rfl⟩
  | addGuard r ord x => exact ⟨rfl, rfl, rfl, rfl, hd, rfl⟩
  | incl r =>
    simp only [World.step, exec, Managers.include, Managers.includeOne, List.foldl_cons, List.foldl_nil]
    refine ⟨rfl, rfl, ?_, ?_, fun T => ?_, rfl⟩
    · simp only [HandlerManager.handlerMetas_includeGuards, HandlerManager.includeHandlers]
    · simp only [HandlerManager.globalGuards_includeGuards_globalsOf, HandlerManager.includeHandlers]
    · simp only [HandlerManager.getD_includeGuards, HandlerManager.includeHandlers, hd]
  | readGuards T =>
    refine ⟨rfl, rfl, rfl, rfl, fun T' => ?_, rfl⟩
    simp only [World.step, exec, HandlerManager.readGuards, Dict.getD_touch, hd]

end Alike

/-- An inspection inserts a key at most. -/
theorem alike_inspected (w : World) (x : Inspection) : (w.inspected x).Alike w := by
  cases x with
  | handler T => exact .refl w
  | listeners T => exact .refl w
  | guards T =>
    refine ⟨rfl, rfl, rfl, rfl, fun T' => ?_, rfl⟩
    simp [inspected, Inspect.guards, inspect, HandlerManager.getGuards, HandlerManager.readGuards]

end World

/-! ### Systems that differ in keys without guards -/

section

variable {w v w' : World} {links links' : Links} {c : Nat} {k k' : Call} {a : CallAct}

theorem Call.nextListener_alike (h : w.Alike v) (k : Call) (ls : List Resolved) :
    k.nextListener v ls = k.nextListener w ls := by
  simp only [Call.nextListener, h.listenerManager]

/-- A call does in one world what it does in the other. -/
theorem Call.Steps.alike (h : w.Alike v) (hs : Call.Steps w links c k a w' links' k') :
    ∃ v', w'.Alike v' ∧ Call.Steps v links c k a v' links' k' := by
  cases hs with
  | unregistered hp hm => exact ⟨v, h, .unregistered hp (by rwa [h.handlerMetas, h.listenerManager])⟩
  | found hp hs hm => exact ⟨v, h, .found hp hs (by rwa [h.handlerMetas])⟩
  | listen hp hs hm => exact ⟨v, h, .listen hp hs (by rwa [h.listenerManager])⟩
  | resolve hp => exact ⟨v, h, .resolve hp⟩
  | resolveListener hp hm => exact ⟨v, h, .resolveListener hp (by rwa [Call.nextListener_alike h])⟩
  | unguarded hp hg =>
    exact ⟨v.step (.readGuards k.msg.type), h.step _, .unguarded hp (by rwa [h.commandGuards])⟩
  | guarded hp hg =>
    -- both worlds give the same guard list
    have hg' : v.commandGuards k.msg.type ≠ [] := by rwa [h.commandGuards]
    refine ⟨v.step (.readGuards k.msg.type), h.step _, ?_⟩
    rw [← h.commandGuards]
    exact .guarded hp hg'
  | chain hp hr => exact ⟨v, h, .chain hp hr⟩
  | dungling hp hl => exact ⟨v, h, .dungling hp hl⟩
  | next hp hl => exact ⟨v, h, .next hp hl⟩
  | firstListener hp hm => exact ⟨v, h, .firstListener hp (by rwa [Call.nextListener_alike h])⟩
  | answer hp hc => exact ⟨v, h, .answer hp hc⟩
  | nextListener hp => exact ⟨v, h, .nextListener hp⟩
  | raise hp => exact ⟨v, h, .raise hp⟩
  | failListener hp hm => exact ⟨v, h, .failListener hp (by rwa [Call.nextListener_alike h])⟩
  | fail hp => exact ⟨v, h, .fail hp⟩

theorem Call.rel_step (h : w.Alike v) (links : Links) (c : Nat) (k : Call) (a : CallAct) :
    Option.Rel (fun p q => p.1.Alike q.1 ∧ q.2 = p.2) (k.step w links c a) (k.step v links c a) := by
  cases hx : k.step w links c a with
  | some p =>
    obtain ⟨v', hv', hs⟩ := (Call.steps_of_step hx).alike h
    rw [hs.step]
    exact .some ⟨hv', rfl⟩
  | none =>
    cases hy : k.step v links c a with
    | none => exact .none
    | some q =>
      -- the other world enables the action as well
      obtain ⟨w', -, hs⟩ := (Call.steps_of_step hy).alike h.symm
      rw [hs.step] at hx
      cases hx

end

namespace System

structure Alike (s t : System) : Prop where
  world : s.world.Alike t.world
  links : t.links = s.links
  calls : t.calls = s.calls
  scopes : t.scopes = s.scopes

theorem Alike.refl (s : System) : s.Alike s := ⟨.refl _, rfl, rfl, rfl⟩

/-- Every action is enabled in both systems or in neither, and keeps them alike. -/
theorem Alike.step {s t : System} (h : s.Alike t) (a : SysAct) : Option.Rel Alike (s.step a) (t.step a) := by
  obtain ⟨w, links, calls, scopes⟩ := s
  obtain ⟨v, links', calls', scopes'⟩ := t
  obtain ⟨hw, hl, hc, hs⟩ := h
  simp only at hw hl hc hs
  subst hl hc hs
  cases a with
  | world b => exact .some ⟨hw.step b, rfl, rfl, rfl⟩
  | openScope n =>
    simp only [System.step]
    split
    · exact .none
    · exact .some ⟨hw, rfl, rfl, rfl⟩
  | closeScope n =>
    simp only [System.step]
    split
    · exact .some ⟨hw, rfl, rfl, rfl⟩
    · exact .none
  | start method msg context scope =>
    have hiff : HasInstances v msg.type ↔ HasInstances w msg.type := by rw [HasInstances, HasInstances, hw.graph]
    by_cases hi : HasInstances w msg.type
    · simp only [System.step, if_pos hi, if_pos (hiff.2 hi)]
      exact .some ⟨hw, rfl, rfl, rfl⟩
    · simp only [System.step, if_neg hi, if_neg fun hv => hi (hiff.1 hv)]
      exact .none
  | call c b =>
    simp only [System.step]
    cases calls'[c]? with
    | none => exact .none
    | some k =>
      have hrel := Call.rel_step hw links' c k b
      simp only
      generalize k.step w links' c b = x at hrel ⊢
      generalize k.step v links' c b = y at hrel ⊢
      cases hrel with
      | none => exact .none
      | some hpq =>
        obtain ⟨hpq, he⟩ := hpq
        simp only [he]
        exact .some ⟨hpq, rfl, rfl, rfl⟩

end System

/-! ### Runs with inspections -/

/-- An action of the system, or an inspection. -/
inductive AppAct
  | act (a : SysAct)
  | inspect (x : Inspection)

namespace AppAct

/-- The action, where it is not an inspection. -/
def sysAct : AppAct → Option SysAct
  | .act a => some a
  | .inspect _ => none

/-- Actions of the system that do the same. -/
def effect : AppAct → List SysAct
  | .act a => [a]
  | .inspect (.guards key) => [.world (.readGuards key)]
  | .inspect _ => []

end AppAct

namespace System

def appStep (s : System) : AppAct → Option System
  | .act a => s.step a
  | .inspect x => some { s with world := s.world.inspected x }

theorem run_appStep (s : System) (acts : List AppAct) :
    Run.run appStep s acts = Run.run step s (acts.flatMap AppAct.effect) := by
  refine Run.run_flatMap (fun s b => ?_) s acts
  cases b with
  | act a => simp [appStep, AppAct.effect, Run.run]
  | inspect x => cases x <;> rfl

/-- Without its inspections a run takes the same actions, to the same calls. -/
theorem inspections_erased (s : System) (acts : List AppAct) :
    Option.Rel Alike (Run.run appStep s acts) (Run.run step s (acts.filterMap AppAct.sysAct)) := by
  refine Run.rel_run_filterMap (fun s t b a h hb => ?_) (fun s t b h hb => ?_) (Alike.refl s) acts
  · cases b with
    | act a' =>
      cases hb
      exact h.step a
    | inspect x => cases hb
  · cases b with
    | act a' => cases hb
    | inspect x => exact ⟨_, rfl, (s.world.alike_inspected x).trans h.world, h.links, h.calls, h.scopes⟩

section

variable {bases : Nat → Option Cls × Option Cls} {s s' : System} {c : Nat} {k : Call}

/-- What the transitions of a call keep holds of it after a run. -/
theorem call_run {P : Call → Prop}
    (hP : ∀ {w links k a w' links' k'}, Call.Steps w links c k a w' links' k' → P k → P k')
    (hk : s.calls[c]? = some k) (h : P k) {acts : List AppAct} (hrun : Run.run appStep s acts = some s') :
    ∃ k', s'.calls[c]? = some k' ∧ P k' := by
  rw [run_appStep] at hrun
  refine Run.preserved (I := fun s : System => ∃ k, s.calls[c]? = some k ∧ P k) ?_ ⟨k, hk, h⟩ hrun
  rintro s a s' ⟨k, hk, h⟩ hs
  obtain ⟨k', hk', hcase⟩ := step_of_call hs hk
  refine ⟨k', hk', ?_⟩
  rcases hcase with ⟨rfl, -⟩ | ⟨b, -, hst⟩
  · exact h
  · exact hP hst h

end

end System

/-! ### `handler` -/

/-- The function that has been resolved. -/
def Resolved.func (h : Resolved) : Func := h.funcMeta.handler

/-- The send has found a handler with the function `f`. -/
structure Call.Finds (f : Func) (k : Call) : Prop where
  passed : k.phase ≠ .entered
  resolving : ∀ m, k.phase = .resolving m → m.handler = f
  handler : ∀ h, k.handler = some h → h.func = f

section

variable {w w' : World} {links links' : Links} {c : Nat} {k k' : Call} {a : CallAct}

theorem Call.Finds.steps {f : Func} (hk : k.Finds f) (h : Call.Steps w links c k a w' links' k') : k'.Finds f := by
  refine ⟨h.not_entered, fun m hp => ?_, fun r hr => ?_⟩
  · cases h.preparing hp trivial with
    | found hp' _ => exact absurd hp' hk.passed
    | resolve _ | guarded _ | listen _ _ | resolveListener _ _ => cases hp
  · rcases h.handler with hh | ⟨m, hp, hh⟩
    · rw [hh] at hr
      exact hk.handler r hr
    · rw [hh] at hr
      cases hr
      exact hk.resolving m hp

/-- A handler that is inspected is that of the meta. -/
theorem World.inspect_handler (w : World) (T : Cls) :
    w.inspect.handler T = (w.managers.handlerManager.handlerMetas.get? T).map FuncMeta.handler := by
  simp only [Inspect.handler, inspect, HandlerManager.getHandler]
  cases w.managers.handlerManager.handlerMetas.get? T <;> rfl

end

namespace System

section

variable {bases : Nat → Option Cls × Option Cls} {s s' : System} {c : Nat} {k : Call}

/-- What `inspect.handler` tells of the send `k`, call number `c`: it raises if there is no handler to inspect, and
otherwise the handler it resolves, whatever happens meanwhile, has the inspected function. -/
def InspectsHandler (s : System) (c : Nat) (k : Call) : Prop :=
  ∃ s', s.step (.call c .lookup) = some s' ∧
    (s'.calls[c]? = some k.unregistered ↔ s.world.inspect.handler k.msg.type = none) ∧
    ∀ f, s.world.inspect.handler k.msg.type = some f →
      (∃ h t, h.func = f ∧ s'.step (.call c .resolveMeta) = some t ∧
        t.calls[c]? = some { k with phase := .resolved h, handler := some h }) ∧
      ∀ acts t, Run.run appStep s' acts = some t → ∃ k', t.calls[c]? = some k' ∧
        ∀ h, k'.handler = some h → h.func = f

theorem inspectsHandler_of_run {acts : List AppAct} (hrun : Run.run appStep (new bases) acts = some s)
    (hk : s.calls[c]? = some k) (hs : k.method = .send) (hp : k.phase = .entered) : InspectsHandler s c k := by
  rw [run_appStep] at hrun
  unfold InspectsHandler
  rw [World.inspect_handler]
  cases hm : s.world.managers.handlerManager.handlerMetas.get? k.msg.type with
  | none =>
    obtain ⟨s', hs', hk', -, -⟩ := step_call hk (.unregistered hp (Or.inl ⟨hs, hm⟩))
    exact ⟨s', hs', by simp [hk'], fun f hf => by cases hf⟩
  | some m =>
    obtain ⟨s', hs', hk', -, -⟩ := step_call hk (.found hp hs hm)
    refine ⟨s', hs', by simp [hk', Call.unregistered], fun f hf => ?_⟩
    obtain rfl : m.handler = f := by simpa using hf
    constructor
    · obtain ⟨t, ht, hkt, -, -⟩ := step_call hk' (.resolve rfl)
      exact ⟨_, t, rfl, ht, hkt⟩
    · intro acts' t hrun'
      have hfinds : ({ k with phase := .resolving m } : Call).Finds m.handler := by
        refine ⟨by simp, fun m' hm' => ?_, fun h hh => ?_⟩
        · cases hm'
          rfl
        · obtain ⟨_, _, _, _, rfl⟩ := begun_of_run hrun hk hp
          cases hh
      obtain ⟨k', hkt, hf'⟩ := call_run (fun hst hf => hf.steps hst) hk' hfinds hrun'
      exact ⟨k', hkt, hf'.handler⟩

end

end System

/-! ### `listeners` -/

theorem ListenerManager.getListeners_eq (lm : ListenerManager) (T : Cls) :
    lm.getListeners T = (lm.listenerMetas.getD T).map FuncMeta.handler := by
  unfold getListeners Dict.getD
  cases lm.listenerMetas.get? T <;> rfl

/-- The listeners inspected are those of the list, unless it is empty. -/
theorem World.inspect_listeners (w : World) (T : Cls) :
    (w.inspect.listeners T = none ↔ w.managers.listenerManager.listenerMetas.getD T = []) ∧
    ∀ fs, w.inspect.listeners T = some fs ↔
      fs ≠ [] ∧ (w.managers.listenerManager.listenerMetas.getD T).map FuncMeta.handler = fs := by
  simp only [Inspect.listeners, inspect, ListenerManager.getListeners_eq]
  cases w.managers.listenerManager.listenerMetas.getD T with
  | nil => simp
  | cons m metas =>
    refine ⟨by simp, fun fs => ⟨fun h => ?_, fun h => ?_⟩⟩
    · cases h
      exact ⟨by simp, rfl⟩
    · rw [← h.2]
      rfl

namespace System

section

variable {bases : Nat → Option Cls × Option Cls} {s s' : System} {J : List Entry} {c : Nat} {k : Call}

/-- The publishes that resolve their listeners have resolved a part of the list of their type, which is not empty. -/
def Listening (s : System) : Prop :=
  ∀ (c : Nat) (k : Call) (ls : List Resolved), s.calls[c]? = some k → k.phase = .listening ls →
    ls <+: k.listenersOf s.world c ∧ k.listenersOf s.world c ≠ []

theorem Listening.step {a : SysAct} (h : Listening s) (hl : Listened bases s.world J)
    (hJ : Journaled bases s.world J) (hs : s.step a = some s') : Listening s' := by
  intro c k' ls hk' hp
  -- the list of the type only grows
  have hgrow : k'.listenersOf s.world c <+: k'.listenersOf s'.world c := (listeners_grow hl hJ hs _).map _
  have hnil : k'.listenersOf s'.world c = [] → k'.listenersOf s.world c = [] :=
    fun h => List.prefix_nil.1 (h ▸ hgrow)
  rcases step_calls hs hk' with ⟨hk, -⟩ | ⟨_, _, _, _, -, -, -, rfl, -⟩ | ⟨b, k, -, hk, hst⟩
  · obtain ⟨hpre, hne⟩ := h c k' ls hk hp
    exact ⟨hpre.trans hgrow, fun h => hne (hnil h)⟩
  · cases hp
  · cases hst.preparing hp trivial with
    | @listen metas _ hm =>
      cases hp
      refine ⟨List.nil_prefix, fun h => ?_⟩
      have hmetas : metas = [] := by simpa [Call.listenersOf, Dict.getD, hm] using hnil h
      exact hl.listenersFilled _ _ hm hmetas
    | @resolveListener m ls₀ hp₀ hm =>
      cases hp
      obtain ⟨hpre, hne⟩ := h c k ls₀ hk hp₀
      have hlen := hpre.length_le
      rw [List.prefix_iff_eq_take.1 hpre] at hm ⊢
      obtain ⟨-, htake⟩ := Call.nextListener_eq_some hlen hm
      rw [htake]
      exact ⟨(List.take_prefix _ _).trans hgrow, fun h => hne (hnil h)⟩
    | found _ _ | resolve _ | guarded _ => cases hp

theorem listening_of_run {acts : List SysAct} (hrun : Run.run step (new bases) acts = some s) : Listening s := by
  have hI : Listened bases s.world ([] ++ (new bases).journal acts) ∧ Listening s :=
    keeps_run (I := fun J s => Listened bases s.world J ∧ Listening s) (P := fun _ _ => True)
      (fun J s a s' hJ _ hs h => ⟨listened_step h.1 hJ hs, h.2.step h.1 hJ hs⟩) (journaled_new bases)
      (Run.meets_of_forall (fun _ _ => trivial) _ acts) hrun ⟨listened_new bases, by simp [Listening, new]⟩
  exact hI.2

theorem listenersOf_func (k : Call) (w : World) (c : Nat) : (k.listenersOf w c).map Resolved.func =
    (w.managers.listenerManager.listenerMetas.getD k.msg.type).map FuncMeta.handler := by
  rw [Call.listenersOf, List.map_map]
  rfl

/-- What `inspect.listeners` tells of the publish `k`, call number `c`, that is to look its event up: it raises if
there are no listeners to inspect, and otherwise, when nothing comes in between, it resolves the inspected functions. -/
def InspectsListeners (s : System) (c : Nat) (k : Call) : Prop :=
  (∃ s', s.step (.call c .lookup) = some s' ∧
    (s'.calls[c]? = some k.unregistered ↔ s.world.inspect.listeners k.msg.type = none)) ∧
  ∀ fs, s.world.inspect.listeners k.msg.type = some fs → ∃ s' ls,
    Run.run step s (.call c .lookup :: List.replicate fs.length (.call c .resolveMeta)) = some s' ∧
      s'.calls[c]? = some { k with phase := .listening ls } ∧ ls.map Resolved.func = fs

theorem inspectsListeners_of_run {acts : List AppAct} (hrun : Run.run appStep (new bases) acts = some s)
    (hk : s.calls[c]? = some k) (hpub : k.method = .publish) (hp : k.phase = .entered) :
    InspectsListeners s c k := by
  rw [run_appStep] at hrun
  unfold InspectsListeners
  have hfilled := (listened_of_run hrun).listenersFilled
  obtain ⟨hnone, hsome⟩ := s.world.inspect_listeners k.msg.type
  rw [hnone]
  cases hm : s.world.managers.listenerManager.listenerMetas.get? k.msg.type with
  | none =>
    have hnil := hfilled.get?_eq_none.1 hm
    obtain ⟨s', hs', hk', -, -⟩ := step_call hk (.unregistered hp (Or.inr ⟨hpub, hm⟩))
    refine ⟨⟨s', hs', by simp [hk', hnil]⟩, fun fs hfs => ?_⟩
    rw [hnone.2 hnil] at hfs
    cases hfs
  | some metas =>
    have hne : s.world.managers.listenerManager.listenerMetas.getD k.msg.type ≠ [] := by
      intro hnil
      rw [hfilled.get?_eq_none.2 hnil] at hm
      cases hm
    obtain ⟨s', hs', hk', hw, -⟩ := step_call hk (.listen hp hpub hm)
    refine ⟨⟨s', hs', by simp [hk', hne, Call.unregistered]⟩, fun fs hfs => ?_⟩
    obtain ⟨-, rfl⟩ := (hsome fs).1 hfs
    have hlist : ({ k with phase := .listening [] } : Call).listenersOf s'.world c = k.listenersOf s.world c := by
      rw [hw]
      rfl
    obtain ⟨t, ht, -, hkt⟩ := resolve_run (n := 0) (k.listenersOf s.world c).length hk' (by rw [List.take_zero])
      (by rw [hlist, Nat.zero_add])
    rw [hlist, Nat.zero_add, List.take_length] at hkt
    refine ⟨t, _, ?_, hkt, listenersOf_func k s.world c⟩
    rw [List.length_map, ← k.listenersOf_length s.world c]
    exact Run.run_cons.2 ⟨s', hs', ht⟩

/-- What `inspect.listeners` tells of the publish `k`, call number `c`, that has resolved `ls`: it goes on along the
inspected functions, and calls its listeners when it has resolved all of these. -/
def InspectsRest (s : System) (c : Nat) (k : Call) (ls : List Resolved) : Prop :=
  ∃ fs, s.world.inspect.listeners k.msg.type = some fs ∧ ls.map Resolved.func <+: fs ∧
    (ls.map Resolved.func = fs →
      ∃ s', s.step (.call c .callNext) = some s' ∧ s'.calls[c]? = some (k.publishNext c ls)) ∧
    (ls.map Resolved.func ≠ fs → s.step (.call c .callNext) = none ∧
      ∃ h s', (ls ++ [h]).map Resolved.func <+: fs ∧ s.step (.call c .resolveMeta) = some s' ∧
        s'.calls[c]? = some { k with phase := .listening (ls ++ [h]) })

theorem inspectsRest_of_run {acts : List AppAct} (hrun : Run.run appStep (new bases) acts = some s)
    (hk : s.calls[c]? = some k) {ls : List Resolved} (hp : k.phase = .listening ls) : InspectsRest s c k ls := by
  rw [run_appStep] at hrun
  obtain ⟨hpre, hne⟩ := listening_of_run hrun c k ls hk hp
  have hfs := listenersOf_func k s.world c
  refine ⟨(k.listenersOf s.world c).map Resolved.func, ?_, hpre.map _, fun hall => ?_, fun hmore => ?_⟩
  · rw [((s.world.inspect_listeners k.msg.type).2 _), hfs]
    refine ⟨fun hnil => hne ?_, rfl⟩
    rw [← hfs] at hnil
    exact List.map_eq_nil_iff.1 hnil
  · have hlen : ls.length = (k.listenersOf s.world c).length := by simpa using congrArg List.length hall
    have hnone : k.nextListener s.world ls = none := by
      rw [Call.nextListener, List.getElem?_eq_none_iff, hlen, k.listenersOf_length]
    obtain ⟨s', hs', hk', -, -⟩ := step_call hk (.firstListener hp hnone)
    exact ⟨s', hs', hk'⟩
  · obtain ⟨n, hn, rfl⟩ : ∃ n ≤ (k.listenersOf s.world c).length, ls = (k.listenersOf s.world c).take n :=
      ⟨ls.length, hpre.length_le, List.prefix_iff_eq_take.1 hpre⟩
    cases hm : k.nextListener s.world ((k.listenersOf s.world c).take n) with
    | none => exact absurd (congrArg (List.map Resolved.func) (Call.nextListener_eq_none hn hm)) hmore
    | some m =>
      obtain ⟨-, htake⟩ := Call.nextListener_eq_some hn hm
      obtain ⟨s', hs', hk', -, -⟩ := step_call hk (.resolveListener hp hm)
      refine ⟨?_, _, s', ?_, hs', hk'⟩
      · simp only [step, hk, Call.step, hp, hm]
      · rw [htake]
        exact (List.take_prefix _ _).map _

end

end System

/-! ### `guards` -/

/-- The call has read the guard list `metas` for the handler `h`, and has linked guards of this list at most. -/
structure Call.Chains (h : Resolved) (metas : List GuardMeta) (k : Call) : Prop where
  late : ¬ k.phase.Early
  chaining : ∀ h' metas', k.phase = .chaining h' metas' → h' = h ∧ metas' = metas

section

variable {w w' : World} {links links' : Links} {c : Nat} {k k' : Call} {a : CallAct}

theorem Call.Chains.steps {h : Resolved} {metas : List GuardMeta} (hk : k.Chains h metas)
    (hst : Call.Steps w links c k a w' links' k') : k'.Chains h metas := by
  refine ⟨fun he => hk.late (hst.early he).1, fun h' metas' hp => ?_⟩
  cases hst.preparing hp trivial with
  | guarded hp' =>
    refine absurd ?_ hk.late
    rw [hp']
    trivial
  | found _ _ | resolve _ | listen _ _ | resolveListener _ _ => cases hp

end

namespace System

section

variable {bases : Nat → Option Cls × Option Cls} {s s' : System} {c : Nat} {k : Call}

/-- The objects a call chains, and the links it writes. -/
theorem step_chain {objs : List GuardObj} (hs : s.step (.call c (.chain objs)) = some s') :
    ∃ k h metas head rest, s.calls[c]? = some k ∧ k.phase = .chaining h metas ∧ objs = head :: rest ∧
      ResolveTo metas objs ∧ s'.links = Chain.linkFrom s.links head rest h := by
  cases steps_of_step hs with
  | call hk hst =>
    cases hst with
    | chain hp hr => exact ⟨_, _, _, _, _, hk, hp, rfl, hr, rfl⟩
    | dungling _ hd => cases hd

/-- What `inspect.guards` tells of the send `k`, call number `c`, that has resolved its handler `h`: it calls the
handler if there are no guards, and otherwise links objects for the inspected guards, in their order, and these only,
whatever happens meanwhile. -/
def InspectsGuards (s : System) (c : Nat) (k : Call) (h : Resolved) : Prop :=
  ∃ s', s.step (.call c .readGuards) = some s' ∧
    ((s.world.inspect.guards k.msg.type).2 = [] →
      s'.calls[c]? = some (k.enterNext (.inr h) k.msg (k.context c) [])) ∧
    ((s.world.inspect.guards k.msg.type).2 ≠ [] → ∀ objs, (∃ t, s'.step (.call c (.chain objs)) = some t) ↔
      List.Forall₂ GuardRef.ResolvesTo (s.world.inspect.guards k.msg.type).2 objs) ∧
    ∀ acts t t' objs, Run.run appStep s' acts = some t → t.step (.call c (.chain objs)) = some t' →
      List.Forall₂ GuardRef.ResolvesTo (s.world.inspect.guards k.msg.type).2 objs ∧
        ∃ head rest, objs = head :: rest ∧ t'.links = Chain.linkFrom t.links head rest h

theorem inspectsGuards (hk : s.calls[c]? = some k) {h : Resolved} (hp : k.phase = .resolved h) :
    InspectsGuards s c k h := by
  unfold InspectsGuards
  rw [World.inspect_guards]
  have hiff : ∀ objs, List.Forall₂ GuardRef.ResolvesTo ((s.world.commandGuards k.msg.type).map GuardMeta.guard) objs ↔
      ResolveTo (s.world.commandGuards k.msg.type) objs := fun objs => List.forall₂_map_left_iff
  simp only [hiff]
  -- what the call links later is for the list it has read
  have hlater : ∀ {s' k' acts t t' objs}, s'.calls[c]? = some k' →
      k'.Chains h (s.world.commandGuards k.msg.type) → Run.run appStep s' acts = some t →
      t.step (.call c (.chain objs)) = some t' → ResolveTo (s.world.commandGuards k.msg.type) objs ∧
        ∃ head rest, objs = head :: rest ∧ t'.links = Chain.linkFrom t.links head rest h := by
    intro s' k' acts t t' objs hk' hch hrun ht
    obtain ⟨kt, hkt, hcht⟩ := call_run (fun hst hc => hc.steps hst) hk' hch hrun
    obtain ⟨k₁, h₁, metas, head, rest, hk₁, hp₁, rfl, hr, hlinks⟩ := step_chain ht
    rw [hkt] at hk₁
    cases hk₁
    obtain ⟨rfl, rfl⟩ := hcht.chaining _ _ hp₁
    exact ⟨hr, head, rest, rfl, hlinks⟩
  by_cases hg : s.world.commandGuards k.msg.type = []
  · obtain ⟨s', hs', hk', -, -⟩ := step_call hk (.unguarded hp hg)
    refine ⟨s', hs', fun _ => hk', fun hne => absurd (by rw [hg]; rfl) hne, fun acts t t' objs => hlater hk' ⟨id, ?_⟩⟩
    intro h' metas' hp'
    cases hp'
  · obtain ⟨s', hs', hk', -, -⟩ := step_call hk (.guarded hp hg)
    have hch : ({ k with
        phase := .chaining h (s.world.commandGuards k.msg.type)
        listed := s.world.commandGuards k.msg.type } : Call).Chains h (s.world.commandGuards k.msg.type) := by
      refine ⟨id, fun h' metas' hp' => ?_⟩
      cases hp'
      exact ⟨rfl, rfl⟩
    refine ⟨s', hs', fun hnil => absurd (List.map_eq_nil_iff.1 hnil) hg, fun _ objs => ⟨?_, fun hr => ?_⟩,
      fun acts t t' objs => hlater hk' hch⟩
    · rintro ⟨t, ht⟩
      have hrun : Run.run appStep s' [] = some s' := rfl
      exact (hlater hk' hch hrun ht).1
    · cases objs with
      | nil => exact absurd (List.forall₂_nil_right_iff.1 hr) hg
      | cons head rest =>
        obtain ⟨t, ht, -⟩ := step_call hk' (.chain rfl hr)
        exact ⟨t, ht⟩

end

end System

/-! ### Inspection and dispatch -/

namespace System

/-- In every state that registrations, includes, sends, publishes and inspections lead to, a send or publish can begin,
and what it finds is what an inspection shows; and the inspections of a run can be left out without any change to the
calls. -/
theorem inspect_agrees (bases : Nat → Option Cls × Option Cls) (acts : List AppAct) (s : System)
    (hrun : Run.run appStep (new bases) acts = some s) :
    (∀ method msg context scope, HasInstances s.world msg.type →
      ∃ s', s.step (.start method msg context scope) = some s' ∧ s'.world = s.world ∧
        s'.calls[s.calls.length]? = some (begin s.calls.length method msg context scope)) ∧
    (∀ c k, s.calls[c]? = some k → k.method = .send → k.phase = .entered → InspectsHandler s c k) ∧
    (∀ c k, s.calls[c]? = some k → k.method = .publish → k.phase = .entered → InspectsListeners s c k) ∧
    (∀ c k ls, s.calls[c]? = some k → k.phase = .listening ls → InspectsRest s c k ls) ∧
    (∀ c k h, s.calls[c]? = some k → k.phase = .resolved h → InspectsGuards s c k h) ∧
    ∀ acts', Option.Rel Alike (Run.run appStep s acts') (Run.run step s (acts'.filterMap AppAct.sysAct)) := by
  refine ⟨fun method msg context scope hi => ?_, fun c k hk hs hp => inspectsHandler_of_run hrun hk hs hp,
    fun c k hk hs hp => inspectsListeners_of_run hrun hk hs hp, fun c k ls hk hp => inspectsRest_of_run hrun hk hp,
    fun c k h hk hp => inspectsGuards hk hp, fun acts' => inspections_erased s acts'⟩
  obtain ⟨s', hs', hk', hw, -⟩ := step_start hi method context scope
  exact ⟨s', hs', hw, hk'⟩

open UserApp in
/-- A guard function for the base, an include, and inspections before and after it. -/
def inspectedSetup : List AppAct :=
  setup.map .act ++ [.inspect (.guards CreateUser), .act (.world (.preHandle 0 .listed (guardFunc 3 UserCommand))),
    .act (.world (.incl 0)), .inspect (.guards UserCommand), .inspect (.listeners CreateUser)]

open UserApp in
/-- The handler of the command is inspected, and then resolved by a send. -/
theorem createUser_inspected :
    ∃ s s' t k h, Run.run appStep (new UserApp.bases)
        (inspectedSetup ++ [.act (.start .send ⟨0, CreateUser⟩ none none)]) = some s ∧
      (s.world.inspect.handler CreateUser).map Func.id = some 1 ∧
      s.step (.call 0 .lookup) = some s' ∧ s'.step (.call 0 .resolveMeta) = some t ∧ t.calls[0]? = some k ∧
      k.handler = some h ∧ h.func.id = 1 := by
  have hsetup : (Run.run appStep (new UserApp.bases) inspectedSetup).map (fun s =>
      decide (HasInstances s.world CreateUser ∧ s.calls.length = 0 ∧
        (s.world.inspect.handler CreateUser).map Func.id = some 1)) = some true := by
    decide +kernel
  obtain ⟨s₀, hs₀, hd⟩ := Option.map_eq_some_iff.1 hsetup
  obtain ⟨hi, hlen, hid⟩ := of_decide_eq_true hd
  obtain ⟨s, hs, hw, hk⟩ := (inspect_agrees UserApp.bases _ s₀ hs₀).1 .send ⟨0, CreateUser⟩ none none hi
  rw [hlen] at hk
  have hrun : Run.run appStep (new UserApp.bases)
      (inspectedSetup ++ [.act (.start .send ⟨0, CreateUser⟩ none none)]) = some s :=
    Run.run_append.2 ⟨s₀, hs₀, Run.run_cons.2 ⟨s, hs, rfl⟩⟩
  obtain ⟨s', hs', -, hf⟩ := (inspect_agrees UserApp.bases _ s hrun).2.1 0 _ hk rfl rfl
  rw [← hw] at hid
  obtain ⟨f, hfs, hfid⟩ := Option.map_eq_some_iff.1 hid
  obtain ⟨⟨h, t, hfunc, ht, hkt⟩, -⟩ := hf f hfs
  exact ⟨s, s', t, _, h, hrun, hid, hs', ht, hkt, rfl, hfunc ▸ hfid⟩

end System

end Anywise
