import Anywise.Nesting
import Mathlib.Data.List.Chain

/-!
# Sends that cross

A send may be taken out of its chain by another one that links the same guards anew.  It still calls user code in a
nested way, with its own command and context (`sends_nest`).  And it goes astray only over guards that it has in
common with others: each step from guard to guard, or to a handler, is in the chain of some send (`crossing_shares`);
a send that shares no guard stays in its chain (`unshared_isolated`).
-/

namespace Anywise

/-! ### Steps from guard to guard -/

namespace System

/-- Some send has linked `g` to `g'`. -/
def Follows (s : System) (g g' : GuardObj) : Prop :=
  ∃ (d : Nat) (k : Call) (pre post : List GuardObj), s.calls[d]? = some k ∧ k.method = .send ∧
    k.guards = pre ++ g :: g' :: post

/-- A send has resolved the handler, and linked `g` to it. -/
def EndsAt (s : System) (g : GuardObj) (h : Resolved) : Prop :=
  ∃ k : Call, s.calls[h.call]? = some k ∧ k.method = .send ∧ k.handler = some h ∧ k.guards.getLast? = some g

/-- Where the send `k` has come along the links. -/
structure Routed (s : System) (k : Call) : Prop where
  first : k.entered ≠ [] → k.entered.head? = k.guards.head?
  route : k.entered.IsChain s.Follows
  before : ∀ f outer, k.phase = .before f outer → k.deliveries = []
  delivered : ∀ h m, (h, m) ∈ k.deliveries → m = k.msg ∧
    (k.entered = [] ∧ k.handler = some h ∨ ∃ g ∈ k.entered.getLast?, s.EndsAt g h)

/-- The invariant of all sends. -/
structure Traced (s : System) : Prop where
  kept : ∀ (c : Nat) (k : Call), s.calls[c]? = some k → k.Kept c
  nested : ∀ (c : Nat) (k : Call), s.calls[c]? = some k → k.method = .send → k.Nested c ∧ s.Routed k
  toGuard : ∀ g g', s.links g = some (.inl g') → s.Follows g g'
  toHandler : ∀ g h, s.links g = some (.inr h) → s.EndsAt g h

variable {s s' : System} {a : SysAct} {c : Nat} {k k' : Call}

/-- What the calls have linked and resolved stays. -/
private theorem later_of_kept (hs : ∀ (c : Nat) (k : Call), s.calls[c]? = some k → k.Kept c) (h : s.step a = some s') :
    (∀ g g', s.Follows g g' → s'.Follows g g') ∧ ∀ g r, s.EndsAt g r → s'.EndsAt g r := by
  have hlater : ∀ (d : Nat) (k : Call), s.calls[d]? = some k → ∃ k', s'.calls[d]? = some k' ∧ k'.method = k.method ∧
      (∀ r, k.handler = some r → k'.handler = some r) ∧ (k.guards ≠ [] → k'.guards = k.guards) := by
    intro d k hk
    obtain ⟨k', hk', ⟨rfl, -⟩ | ⟨b, -, hst⟩⟩ := step_of_call h hk
    · exact ⟨k', hk', rfl, fun _ => id, fun _ => rfl⟩
    · exact ⟨k', hk', hst.args.1, (hs d k hk).steps_same hst⟩
  constructor
  · rintro g g' ⟨d, k, pre, post, hk, hsend, hg⟩
    obtain ⟨k', hk', hm, -, hguards⟩ := hlater d k hk
    exact ⟨d, k', pre, post, hk', hm.trans hsend, (hguards (by simp [hg])).trans hg⟩
  · rintro g r ⟨k, hk, hsend, hh, hg⟩
    obtain ⟨k', hk', hm, hhandler, hguards⟩ := hlater _ k hk
    have hne : k.guards ≠ [] := by
      rintro hnil
      rw [hnil] at hg
      cases hg
    exact ⟨k', hk', hm.trans hsend, hhandler r hh, by rw [hguards hne, hg]⟩

private theorem Routed.later (hr : s.Routed k) (hf : ∀ g g', s.Follows g g' → s'.Follows g g')
    (he : ∀ g r, s.EndsAt g r → s'.EndsAt g r) : s'.Routed k where
  first := hr.first
  route := hr.route.imp fun {g g'} => hf g g'
  before := hr.before
  delivered h m hd := by
    obtain ⟨hm, hfrom⟩ := hr.delivered h m hd
    exact ⟨hm, hfrom.imp_right fun ⟨g, hg, hend⟩ => ⟨g, hg, he g h hend⟩⟩

/-- A call that neither enters a guard nor calls a handler. -/
private theorem Routed.same (hr : s.Routed k) (hm : k'.msg = k.msg) (he : k'.entered = k.entered)
    (hg : k.guards ≠ [] → k'.guards = k.guards) (hh : ∀ r, k.handler = some r → k'.handler = some r)
    (hd : k'.deliveries = k.deliveries) (hno : ∀ f outer, k'.phase ≠ .before f outer) : s.Routed k' where
  first hne := by
    rw [he] at hne ⊢
    have hhead := hr.first hne
    have hguards : k.guards ≠ [] := by
      rintro hnil
      rw [hnil, List.head?_nil, List.head?_eq_none_iff] at hhead
      exact hne hhead
    rw [hg hguards, hhead]
  route := he ▸ hr.route
  before f outer hp := absurd hp (hno f outer)
  delivered h m hx := by
    rw [hd] at hx
    obtain ⟨hmsg, hfrom⟩ := hr.delivered h m hx
    rw [hm, he]
    exact ⟨hmsg, hfrom.imp_left fun ⟨hnil, hres⟩ => ⟨hnil, hh h hres⟩⟩

private theorem Routed.leave (hr : s.Routed k) (hl : Call.Leaves k k') : s.Routed k' := by
  refine hr.same hl.msg hl.entered (fun _ => hl.guards) (fun r hh => hl.handler.trans hh) hl.deliveries
    fun f outer hp => ?_
  rcases hl.out with ⟨_, _, _, ho⟩ | ⟨_, _, _, ho⟩ | ⟨_, ho⟩ <;> simp [hp] at ho

/-- What an action of a send does to it, the links having led it here. -/
private theorem Routed.steps {w' : World} {links' : Links} {b : CallAct} (hs : s.Traced) (hk : s.calls[c]? = some k)
    (hsend : k.method = .send) (hst : Call.Steps s.world s.links c k b w' links' k') : s.Routed k' := by
  obtain ⟨hnested, hr⟩ := hs.nested c k hk hsend
  have hkept := hs.kept c k hk
  have hready := hkept.ready
  have hearly := hkept.early
  have hnests := hnested.nests
  have hframes := hnested.frames
  obtain ⟨hhandler, hguards⟩ := hkept.steps_same hst
  unfold Call.Ready at hready
  unfold Call.Nests at hnests
  cases hst with
  | unguarded hp _ =>
    rw [hp] at hready hearly
    obtain ⟨-, hent, hlog⟩ := hearly trivial
    refine ⟨hr.first, hr.route, fun f outer hp' => (by cases hp'), fun h m hd => ?_⟩
    rw [Call.deliveries_handler, Call.deliveries_nil hlog, List.nil_append, List.mem_singleton] at hd
    cases hd
    exact ⟨rfl, Or.inl ⟨hent, hready.2⟩⟩
  | @chain r metas head rest hp _ =>
    rw [hp] at hearly
    obtain ⟨-, hent, hlog⟩ := hearly trivial
    have hent' : ({ k with guards := head :: rest }.enterNext (.inl head) k.msg (k.context c) []).entered = [head] := by
      rw [Call.enterNext, hent, List.nil_append]
    have hno : ({ k with guards := head :: rest }.enterNext (.inl head) k.msg (k.context c) []).deliveries = [] := by
      rw [Call.deliveries_guard]
      exact Call.deliveries_nil hlog
    refine ⟨fun _ => ?_, ?_, fun _ _ _ => hno, fun h m hd => ?_⟩
    · rw [hent']
      rfl
    · rw [hent']
      exact List.isChain_singleton head
    · rw [hno] at hd
      cases hd
  | @next f outer n hp hl =>
    have hno := hr.before f outer hp
    rw [hp] at hnests hframes
    have hlast : k.entered.getLast? = some f.guard := by
      rw [hnests.1, Call.guardsOf_cons, List.getLast?_concat]
    cases n with
    | inl g =>
      have hno' : (k.enterNext (.inl g) f.command f.context (f :: outer)).deliveries = [] := by
        rw [Call.deliveries_guard, hno]
      have hne : k.entered ≠ [] := by
        rintro hnil
        rw [hnil] at hlast
        cases hlast
      refine ⟨fun _ => ?_, ?_, fun _ _ _ => hno', fun h m hd => ?_⟩
      · rw [show (k.enterNext (.inl g) _ _ _).entered = k.entered ++ [g] from rfl,
          List.head?_append_of_ne_nil _ hne]
        exact hr.first hne
      · refine List.isChain_append.2 ⟨hr.route, List.isChain_singleton g, fun x hx y hy => ?_⟩
        rw [hlast] at hx
        cases hx
        cases hy
        exact hs.toGuard _ _ hl
      · rw [hno'] at hd
        cases hd
    | inr h =>
      refine ⟨hr.first, hr.route, fun f' outer' hp' => (by cases hp'), fun h' m hd => ?_⟩
      rw [Call.deliveries_handler, hno, List.nil_append, List.mem_singleton] at hd
      cases hd
      exact ⟨(hframes f List.mem_cons_self).1, Or.inr ⟨f.guard, hlast, hs.toHandler _ _ hl⟩⟩
  | listen _ hpub _ =>
    rw [hsend] at hpub
    cases hpub
  | resolveListener hp _ | firstListener hp _ | nextListener hp | failListener hp _ =>
    rw [hp] at hnests
    exact hnests.elim
  | dungling _ _ => exact hr.leave (Call.raiseTo_leaves k (_ :: _) _).1
  | answer _ _ => exact hr.leave (Call.returnTo_leaves k _ _).1
  | raise _ => exact hr.leave (Call.raiseTo_leaves k _ _).1
  | unregistered _ _ | found _ _ _ | resolve _ | guarded _ _ | fail _ =>
    exact hr.same rfl rfl hguards hhandler rfl fun f outer hp' => (by cases hp')

/-- A link that the action writes is in the chain of the send that writes it. -/
private theorem Traced.links (hs : s.Traced) (h : s.step a = some s') {g : GuardObj} {n : GuardObj ⊕ Resolved}
    (hn : s'.links g = some n) : s.links g = some n ∨ (∃ g', n = .inl g' ∧ s'.Follows g g') ∨
      ∃ r, n = .inr r ∧ s'.EndsAt g r := by
  cases steps_of_step h with
  | @call d b k k' w links hk hst =>
    have hlt := (List.getElem?_eq_some_iff.1 hk).1
    cases hst with
    | @chain r metas head rest hp _ =>
      have hkept := hs.kept d k hk
      have hready := hkept.ready
      unfold Call.Ready at hready
      rw [hp] at hready
      obtain ⟨hsend, hh⟩ := hready
      obtain rfl : r.call = d := (hkept.own r hh).1
      have hget := List.getElem?_set_self (a := { k with guards := head :: rest }.enterNext (.inl head) k.msg
        (k.context r.call) []) hlt
      simp only [Chain.linkFrom_apply, Option.or_eq_some_iff] at hn
      rcases hn with hn | ⟨-, hn⟩
      · rcases Chain.split_of_nextOf hn with ⟨g', pre, post, rfl, hsplit⟩ | ⟨rfl, hlast⟩
        · exact Or.inr (Or.inl ⟨g', rfl, r.call, _, pre, post, hget, hsend, hsplit⟩)
        · exact Or.inr (Or.inr ⟨r, rfl, _, hget, hsend, hh, hlast⟩)
      · exact Or.inl hn
    | _ => exact Or.inl hn
  | _ => exact Or.inl hn

theorem Traced.step (hs : s.Traced)
    (hm : ∀ T m, s.world.managers.handlerManager.handlerMetas.get? T = some m → m.messageType = T)
    (h : s.step a = some s') : s'.Traced := by
  obtain ⟨hfollows, hends⟩ := later_of_kept hs.kept h
  refine ⟨fun c k' hk' => ?_, fun c k' hk' hsend => ?_, fun g g' hl => ?_, fun g r hl => ?_⟩
  · rcases step_calls h hk' with ⟨hk, -⟩ | ⟨_, _, _, _, -, -, -, rfl, -⟩ | ⟨b, k, -, hk, hst⟩
    · exact hs.kept c k' hk
    · exact Call.kept_begin c _ _ _ _
    · exact (hs.kept c k hk).steps hm hst
  · rcases step_calls h hk' with ⟨hk, -⟩ | ⟨_, _, _, _, -, -, -, rfl, -⟩ | ⟨b, k, -, hk, hst⟩
    · obtain ⟨hnested, hr⟩ := hs.nested c k' hk hsend
      exact ⟨hnested, hr.later hfollows hends⟩
    · refine ⟨⟨fun f hf => (by cases hf), rfl, rfl⟩,
        ⟨fun hne => absurd rfl hne, .nil, fun _ _ _ => rfl, fun r m hd => ?_⟩⟩
      cases hd
    · rw [hst.args.1] at hsend
      obtain ⟨hnested, -⟩ := hs.nested c k hk hsend
      exact ⟨hnested.steps hsend hst, (Routed.steps hs hk hsend hst).later hfollows hends⟩
  · rcases hs.links h hl with hl | ⟨x, hx, hf⟩ | ⟨r, hr, -⟩
    · exact hfollows g g' (hs.toGuard g g' hl)
    · cases hx
      exact hf
    · cases hr
  · rcases hs.links h hl with hl | ⟨x, hx, -⟩ | ⟨r', hr, he⟩
    · exact hends g r (hs.toHandler g r hl)
    · cases hx
    · cases hr
      exact he

theorem traced_of_run {bases : Nat → Option Cls × Option Cls} {acts : List SysAct}
    (h : Run.run step (new bases) acts = some s) : s.Traced := by
  have hinv : (∃ J, Journaled bases s.world J) ∧ s.Traced := by
    refine Run.preserved (I := fun s => (∃ J, Journaled bases s.world J) ∧ s.Traced) ?_ ?_ h
    · rintro s a s' ⟨⟨J, hJ⟩, hs⟩ hstep
      exact ⟨⟨_, journaled_step hJ hstep⟩, hs.step hJ.messageType hstep⟩
    · refine ⟨⟨[], journaled_new bases⟩, ?_, ?_, ?_, ?_⟩
      · simp [new]
      · simp [new]
      · intro g g' hl
        cases hl
      · intro g r hl
        cases hl
  exact hinv.2

/-- In every run a send begins in its own chain; each guard it calls after another one, and the handler after the last
one, follows there in the chain that some send has linked.  So a command comes to the handler of another send only
over the last guard of the chain of that one.  Class-based guards call the next one at most once, with their own
arguments. -/
theorem crossing_shares (bases : Nat → Option Cls × Option Cls) (acts : List SysAct) (s : System)
    (hrun : Run.run step (new bases) acts = some s) (c : Nat) (k : Call) (hk : s.calls[c]? = some k)
    (hsend : k.method = .send) :
    (k.entered ≠ [] → k.entered.head? = k.guards.head?) ∧ k.entered.IsChain s.Follows ∧
    ∀ h m, (h, m) ∈ k.deliveries → m = k.msg ∧ ∃ k', s.calls[h.call]? = some k' ∧ k'.method = .send ∧
      k'.handler = some h ∧ h.scope = k'.scope ∧ h.funcMeta.messageType = k'.msg.type ∧
      (h.call = c ∨ ∃ g ∈ k.entered.getLast?, k'.guards.getLast? = some g) := by
  have htraced := traced_of_run hrun
  have hr := (htraced.nested c k hk hsend).2
  refine ⟨hr.first, hr.route, fun h m hd => ?_⟩
  obtain ⟨hm, hfrom⟩ := hr.delivered h m hd
  refine ⟨hm, ?_⟩
  rcases hfrom with ⟨-, hh⟩ | ⟨g, hg, k', hk', hsend', hh, hlast⟩
  · obtain ⟨rfl, hsc, ht⟩ := (htraced.kept c k hk).own h hh
    exact ⟨k, hk, hsend, hh, hsc, ht, Or.inl rfl⟩
  · obtain ⟨-, hsc, ht⟩ := (htraced.kept _ k' hk').own h hh
    exact ⟨k', hk', hsend', hh, hsc, ht, Or.inr ⟨g, hg, hlast⟩⟩

/-- A send that has no guard object in common with another send calls its own guards only, and its own handler. -/
theorem unshared_isolated (bases : Nat → Option Cls × Option Cls) (acts : List SysAct) (s : System)
    (hrun : Run.run step (new bases) acts = some s) (c : Nat) (k : Call) (hk : s.calls[c]? = some k)
    (hsend : k.method = .send)
    (hunshared : ∀ (d : Nat) (k' : Call), d ≠ c → s.calls[d]? = some k' → k'.method = .send →
      ∀ g ∈ k.guards, g ∉ k'.guards) :
    (∀ g ∈ k.entered, g ∈ k.guards) ∧
    ∀ h m, (h, m) ∈ k.deliveries → h.call = c ∧ h.scope = k.scope ∧ h.funcMeta.messageType = k.msg.type := by
  have htraced := traced_of_run hrun
  have hr := (htraced.nested c k hk hsend).2
  have hown : ∀ (d : Nat) (k' : Call) (g : GuardObj), s.calls[d]? = some k' → k'.method = .send → g ∈ k.guards →
      g ∈ k'.guards → d = c := by
    intro d k' g hk' hsend' hg hg'
    by_contra hne
    exact hunshared d k' hne hk' hsend' g hg hg'
  -- along the chain the guards stay those of the send
  have hentered : ∀ g ∈ k.entered, g ∈ k.guards := by
    have hchain : ∀ l : List GuardObj, l.IsChain s.Follows → (∀ g ∈ l.head?, g ∈ k.guards) → ∀ g ∈ l, g ∈ k.guards := by
      intro l hl hfirst
      induction hl with
      | nil => exact fun g hg => (by cases hg)
      | singleton x => exact fun g hg => hfirst g (by rw [List.mem_singleton.1 hg]; rfl)
      | @cons_cons x y l hxy _ ih =>
        have hx : x ∈ k.guards := hfirst x rfl
        obtain ⟨d, k', pre, post, hk', hsend', hg⟩ := hxy
        obtain rfl := hown d k' x hk' hsend' hx (by simp [hg])
        rw [hk] at hk'
        cases hk'
        have hy : ∀ g ∈ (y :: l).head?, g ∈ k.guards := by
          intro g hgy
          cases hgy
          simp [hg]
        exact List.forall_mem_cons.2 ⟨hx, ih hy⟩
    refine hchain k.entered hr.route fun g hg => ?_
    rw [hr.first (List.ne_nil_of_mem (List.mem_of_mem_head? hg))] at hg
    exact List.mem_of_mem_head? hg
  refine ⟨hentered, fun h m hd => ?_⟩
  obtain ⟨-, hfrom⟩ := hr.delivered h m hd
  rcases hfrom with ⟨-, hh⟩ | ⟨g, hg, k', hk', hsend', hh, hlast⟩
  · exact (htraced.kept c k hk).own h hh
  · have hc := hown h.call k' g hk' hsend' (hentered g (List.mem_of_getLast? hg)) (List.mem_of_getLast? hlast)
    rw [hc, hk] at hk'
    cases hk'
    exact (htraced.kept c k hk).own h hh

/-! ### Two crossing sends, and two with guards of their own -/

open UserApp

/-- The method of each call, the calls that resolved the handlers it called, and what it has returned. -/
private def sketch (s : System) : List (Method × List Nat × Option Value) :=
  s.calls.map fun k => (k.method, k.deliveries.map fun d => d.1.call, k.phase.returned)

/-- The second send takes the first one to its handler, which returns. -/
def crossed : List SysAct := crossing ++ [.call 0 (.answer none)]

private theorem crossed_run : ∃ s k₀ k₁, Run.run step (new bases) crossed = some s ∧ s.calls = [k₀, k₁] ∧
    k₀.method = .send ∧ (∃ h m, k₀.deliveries = [(h, m)] ∧ h.call = 1) ∧ k₀.phase = .done (.ok none) := by
  have hrun : (Run.run step (new bases) crossed).map sketch =
      some [(.send, [1], some none), (.send, [], none)] := by
    decide +kernel
  obtain ⟨s, hs, hout⟩ := Option.map_eq_some_iff.1 hrun
  rcases hcalls : s.calls with _ | ⟨k₀, _ | ⟨k₁, _ | ⟨_, _⟩⟩⟩ <;> simp [sketch, hcalls] at hout
  obtain ⟨⟨hm, hd, hr⟩, -⟩ := hout
  obtain ⟨h, ⟨m, hdel⟩, hc⟩ := hd
  exact ⟨s, k₀, k₁, hs, hcalls, hm, ⟨h, m, hdel, hc⟩, Phase.returned_eq_some.1 hr⟩

/-- The handler it has called is that of the second send, and the two have the last guard in common. -/
theorem crossed_over_shared_guard :
    ∃ s k₀ k₁ g, Run.run step (new bases) crossed = some s ∧ s.calls[0]? = some k₀ ∧ s.calls[1]? = some k₁ ∧
      k₀.entered.getLast? = some g ∧ k₁.guards.getLast? = some g := by
  obtain ⟨s, k₀, k₁, hs, hcalls, hm, ⟨h, m, hd, hc⟩, -⟩ := crossed_run
  have hk : s.calls[0]? = some k₀ := by rw [hcalls]; rfl
  obtain ⟨-, k', hk', -, -, -, -, hfrom⟩ :=
    (crossing_shares bases crossed s hs 0 k₀ hk hm).2.2 h m (by rw [hd]; exact List.mem_cons_self)
  rw [hc] at hk' hfrom
  obtain ⟨g, hg, hlast⟩ := hfrom.resolve_left (by decide)
  exact ⟨s, k₀, k', g, hs, hk, hk', hg, hlast⟩

/-- Each command has a guard of its own, and the sends go on in turns. -/
def ownGuards : List SysAct :=
  setup ++ [.world (.preHandle 0 .listed (guardFunc 3 CreateUser)),
      .world (.preHandle 0 .listed (guardFunc 4 UpdateUser)), .world (.incl 0)] ++
    sendUpTo 0 ⟨0, CreateUser⟩ [.guard 0 0 CreateUser (some 3) none] ++
    sendUpTo 1 ⟨1, UpdateUser⟩ [.guard 0 1 UpdateUser (some 4) none] ++ [.call 0 .callNext]

/-- The first send comes to its own handler. -/
theorem ownGuards_isolated :
    ∃ s k h m, Run.run step (new bases) ownGuards = some s ∧ s.calls[0]? = some k ∧ k.deliveries = [(h, m)] ∧
      h.call = 0 ∧ h.funcMeta.messageType = k.msg.type := by
  have hrun : (Run.run step (new bases) ownGuards).map (fun s =>
      s.calls.map fun k => (k.method, k.deliveries.length, k.guards)) =
      some [(.send, 1, [.guard 0 0 CreateUser (some 3) none]), (.send, 0, [.guard 0 1 UpdateUser (some 4) none])] := by
    decide +kernel
  obtain ⟨s, hs, hout⟩ := Option.map_eq_some_iff.1 hrun
  rcases hcalls : s.calls with _ | ⟨k₀, _ | ⟨k₁, _ | ⟨_, _⟩⟩⟩ <;> simp [hcalls] at hout
  obtain ⟨⟨hm, hd, hg₀⟩, -, -, hg₁⟩ := hout
  have hk : s.calls[0]? = some k₀ := by rw [hcalls]; rfl
  obtain ⟨⟨h, m⟩, hdel⟩ := List.length_eq_one_iff.1 hd
  obtain ⟨-, hown⟩ := unshared_isolated bases ownGuards s hs 0 k₀ hk hm (by
    intro d k' hne hk' _ g hg hg'
    rw [hcalls] at hk'
    rcases d with _ | _ | d
    · exact hne rfl
    · cases hk'
      rw [hg₀, List.mem_singleton] at hg
      rw [hg₁, List.mem_singleton, hg] at hg'
      cases hg'
    · cases hk')
  obtain ⟨hc, -, ht⟩ := hown h m (by rw [hdel]; exact List.mem_cons_self)
  exact ⟨s, k₀, h, m, hs, hk, hdel, hc, ht⟩

end System

end Anywise
