import Anywise.Crossing
import Anywise.Resolution
import Anywise.Skipping

/-!
# Includes while a send is on its way

A send looks its handler up at one moment and reads its guard list at a later one, and in between a registry may be
included.  Both moments are after its beginning, and what the `Anywise` holds then is what the send goes on with
(`send_sees_moments`).  Guard lists only grow, so the guards that were included when the send began are among those
that it reads; where no other send links its guards, its handler is called only after all of these
(`guarded_since_begin`).
-/

namespace Anywise

/-! ### Guard lists only grow -/

theorem includedGuards_prefix (J K : List Entry) : includedGuards J <+: includedGuards (J ++ K) := by
  induction K using List.reverseRecOn with
  | nil => rw [List.append_nil]
  | append_singleton K e ih =>
    rw [← List.append_assoc]
    cases e with
    | incl r =>
      rw [includedGuards_incl]
      exact ih.trans (List.prefix_append _ _)
    | handler r g ord h => rwa [includedGuards_snoc _ (by simp)]
    | guard e => rwa [includedGuards_snoc _ (by simp)]

theorem guardList_sublist (J K : List Entry) (T : Cls) : (guardList J T).Sublist (guardList (J ++ K) T) := by
  obtain ⟨es, hes⟩ := includedGuards_prefix J K
  unfold guardList
  rw [← hes, guardsFor_append, guardsFor_append]
  exact (List.sublist_append_left _ _).append (List.sublist_append_left _ _)

/-- Objects for a list contain objects for each sublist of it. -/
theorem ResolveTo.sublist {metas metas' : List GuardMeta} (hsub : metas.Sublist metas') :
    ∀ {objs' : List GuardObj}, ResolveTo metas' objs' → ∃ objs, ResolveTo metas objs ∧ objs.Sublist objs' := by
  induction hsub with
  | slnil => exact fun _ => ⟨[], .nil, List.nil_sublist _⟩
  | cons m _ ih =>
    intro objs' hr
    cases hr with
    | cons _ hr =>
      obtain ⟨objs, hobjs, hs⟩ := ih hr
      exact ⟨objs, hobjs, hs.cons _⟩
  | cons_cons m _ ih =>
    intro objs' hr
    cases hr with
    | cons ho hr =>
      obtain ⟨objs, hobjs, hs⟩ := ih hr
      exact ⟨_, .cons ho hobjs, hs.cons_cons _⟩

namespace System

section

variable {bases : Nat → Option Cls × Option Cls} {s₀ s s' : System} {acts : List SysAct} {c : Nat} {T : Cls}
  {m : FuncMeta} {k k' : Call} {a : SysAct}

/-! ### What a send has seen -/

/-- Among `acts` call `c` has looked up, when `m` was the handler for `T`. -/
def LookedUp (c : Nat) (T : Cls) (s₀ : System) (acts : List SysAct) (m : FuncMeta) : Prop :=
  ∃ acts₁ acts₂ u, acts = acts₁ ++ .call c .lookup :: acts₂ ∧ Run.run step s₀ acts₁ = some u ∧
    u.world.managers.handlerManager.handlerMetas.get? T = some m

/-- Later among them it has read the guard list, which was `metas` then. -/
def HasRead (c : Nat) (T : Cls) (s₀ : System) (acts : List SysAct) (m : FuncMeta) (metas : List GuardMeta) : Prop :=
  ∃ acts₁ acts₂ v, acts = acts₁ ++ .call c .readGuards :: acts₂ ∧ Run.run step s₀ acts₁ = some v ∧
    LookedUp c T s₀ acts₁ m ∧ metas = v.world.commandGuards T

/-- What a send has seen, call number `c`, that had just begun in `s₀`. -/
structure Saw (c : Nat) (s₀ : System) (acts : List SysAct) (k : Call) : Prop where
  found : ∀ m, k.phase.found = some m → LookedUp c k.msg.type s₀ acts m
  early : k.phase.Early → k.listed = []
  late : ¬ k.phase.Early → (k.handler = none ∧ k.listed = [] ∧ k.log = [] ∧ ∃ r, k.phase = .done r) ∨
    ∃ h, k.handler = some h ∧ HasRead c k.msg.type s₀ acts h.funcMeta k.listed

theorem LookedUp.mono (h : LookedUp c T s₀ acts m) (as : List SysAct) : LookedUp c T s₀ (acts ++ as) m := by
  obtain ⟨acts₁, acts₂, u, rfl, hu, hm⟩ := h
  exact ⟨acts₁, acts₂ ++ as, u, by simp, hu, hm⟩

theorem HasRead.mono {metas : List GuardMeta} (h : HasRead c T s₀ acts m metas) (as : List SysAct) :
    HasRead c T s₀ (acts ++ as) m metas := by
  obtain ⟨acts₁, acts₂, v, rfl, hv, hl, hmetas⟩ := h
  exact ⟨acts₁, acts₂ ++ as, v, by simp, hv, hl, hmetas⟩

theorem Saw.mono (hk : Saw c s₀ acts k) (as : List SysAct) : Saw c s₀ (acts ++ as) k where
  found m hm := (hk.found m hm).mono as
  early := hk.early
  late hno := (hk.late hno).imp_right fun ⟨h, hh, hr⟩ => ⟨h, hh, hr.mono as⟩

private theorem early_of_found {p : Phase} (h : p.found = some m) : p.Early := by
  cases p <;> trivial

private theorem prepares_of_early {p : Phase} (h : p.Early) : p.Prepares := by
  cases p <;> trivial

private theorem saw_late (hno : ¬ k.phase.Early)
    (h : (k.handler = none ∧ k.listed = [] ∧ k.log = [] ∧ ∃ r, k.phase = .done r) ∨
      ∃ h, k.handler = some h ∧ HasRead c k.msg.type s₀ acts h.funcMeta k.listed) : Saw c s₀ acts k :=
  ⟨fun _ hm => absurd (early_of_found hm) hno, fun he => absurd he hno, fun _ => h⟩

/-- Once it has read its guard list, and is not at its end, a call keeps what it has seen. -/
private theorem Saw.past (hk : Saw c s₀ acts k) (hno : ¬ k.phase.Early) (hgo : ∀ r, k.phase ≠ .done r)
    (hno' : ¬ k'.phase.Early) (hmsg : k'.msg = k.msg) (hh : k'.handler = k.handler) (hl : k'.listed = k.listed) :
    Saw c s₀ acts k' := by
  refine saw_late hno' (Or.inr ?_)
  rw [hmsg, hh, hl]
  exact (hk.late hno).resolve_left fun ⟨_, _, _, r, hr⟩ => hgo r hr

private theorem Saw.leave (hk : Saw c s₀ acts k) (hno : ¬ k.phase.Early) (hgo : ∀ r, k.phase ≠ .done r)
    (h : Call.Leaves k k') : Saw c s₀ acts k' :=
  hk.past hno hgo (fun he => h.not_prepares (prepares_of_early he)) h.msg h.handler h.listed

private theorem goes_of_runsIn {p : Phase} {outer : List Frame} (h : p.RunsIn outer) :
    ¬ p.Early ∧ ∀ r, p ≠ .done r := by
  cases h <;> exact ⟨id, fun r hr => by cases hr⟩

/-- An action of the send itself. -/
theorem Saw.steps {w' : World} {links' : Links} {b : CallAct} (hk : Saw c s₀ acts k) (hkept : k.Kept c)
    (hsend : k.method = .send) (hrun : Run.run step s₀ acts = some s)
    (h : Call.Steps s.world s.links c k b w' links' k') : Saw c s₀ (acts ++ [.call c b]) k' := by
  have hready := hkept.ready
  have hearly := hkept.early
  have hk' := hk.mono [.call c b]
  unfold Call.Ready at hready
  cases h with
  | unregistered hp _ =>
    rw [hp] at hready hearly
    exact saw_late id (Or.inl ⟨hready, hk.early (hp ▸ trivial), (hearly trivial).2.2, _, rfl⟩)
  | @found m hp _ hm =>
    refine ⟨fun m' hm' => ?_, fun _ => hk.early (hp ▸ trivial), fun hno => absurd trivial hno⟩
    cases hm'
    exact ⟨acts, [], s, rfl, hrun, hm⟩
  | listen _ hpub _ =>
    rw [hsend] at hpub
    cases hpub
  | @resolve m hp =>
    refine ⟨fun m' hm' => ?_, fun _ => hk.early (hp ▸ trivial), fun hno => absurd trivial hno⟩
    exact hk'.found m' (by rw [hp]; exact hm')
  | @unguarded r hp hg =>
    rw [hp] at hready
    refine saw_late id (Or.inr ⟨r, hready.2, acts, [], s, rfl, hrun, hk.found _ (by rw [hp]; rfl), ?_⟩)
    exact (hk.early (hp ▸ trivial)).trans hg.symm
  | @guarded r hp hg =>
    rw [hp] at hready
    exact saw_late id (Or.inr ⟨r, hready.2, acts, [], s, rfl, hrun, hk.found _ (by rw [hp]; rfl), rfl⟩)
  | chain hp _ | resolveListener hp _ | failListener hp _ =>
    exact hk'.past (hp ▸ id) (by simp [hp]) id rfl rfl rfl
  | @next f outer n hp _ =>
    cases n with
    | inl _ | inr _ => exact hk'.past (hp ▸ id) (by simp [hp]) id rfl rfl rfl
  | @firstListener ls hp _ | @nextListener ls _ hp =>
    cases ls with
    | nil | cons _ _ => exact hk'.past (hp ▸ id) (by simp [hp]) id rfl rfl rfl
  | dungling hp _ => exact hk'.leave (hp ▸ id) (by simp [hp]) (Call.raiseTo_leaves k (_ :: _) _).1
  | answer hp _ => exact hk'.leave (goes_of_runsIn hp).1 (goes_of_runsIn hp).2 (Call.returnTo_leaves k _ _).1
  | raise hp => exact hk'.leave (goes_of_runsIn hp).1 (goes_of_runsIn hp).2 (Call.raiseTo_leaves k _ _).1
  | fail hp =>
    generalize hph : k.phase = p at hp hready hearly
    cases hp with
    | resolving m =>
      exact saw_late id (Or.inl ⟨hready.2.1, hk.early (hph ▸ trivial), (hearly trivial).2.2, _, rfl⟩)
    | chaining _ _ | publishing _ => exact hk'.past (hph ▸ id) (by simp [hph]) id rfl rfl rfl

/-- What a send has seen in a run that goes on from its beginning. -/
theorem saw_run {acts₀ : List SysAct} {k₀ : Call} (hrun₀ : Run.run step (new bases) acts₀ = some s₀)
    (hk₀ : s₀.calls[c]? = some k₀) (hsend : k₀.method = .send) (hp : k₀.phase = .entered)
    (hrun : Run.run step s₀ acts = some s) :
    ∃ k, s.calls[c]? = some k ∧ k.method = .send ∧ k.msg = k₀.msg ∧ Saw c s₀ acts k := by
  induction acts using List.reverseRecOn generalizing s with
  | nil =>
    cases hrun
    obtain ⟨_, _, _, _, rfl⟩ := begun_of_run hrun₀ hk₀ hp
    exact ⟨_, hk₀, hsend, rfl, fun m hm => (by cases hm), fun _ => rfl, fun hno => absurd trivial hno⟩
  | append_singleton acts a ih =>
    obtain ⟨t, ht, hrun⟩ := Run.run_append.1 hrun
    obtain ⟨_, hstep, hrun⟩ := Run.run_cons.1 hrun
    cases hrun
    obtain ⟨k, hk, hsend, hmsg, hsaw⟩ := ih ht
    obtain ⟨k', hk', ⟨rfl, -⟩ | ⟨b, rfl, hst⟩⟩ := step_of_call hstep hk
    · exact ⟨k', hk', hsend, hmsg, hsaw.mono [a]⟩
    · have hkept := (traced_of_run (Run.run_append.2 ⟨s₀, hrun₀, ht⟩)).kept c k hk
      obtain ⟨hmeth, hmsg', -, -⟩ := hst.args
      exact ⟨k', hk', hmeth.trans hsend, hmsg'.trans hmsg, hsaw.steps hkept hsend ht hst⟩

theorem HasRead.lookedUp {metas : List GuardMeta} (h : HasRead c T s₀ acts m metas) : LookedUp c T s₀ acts m := by
  obtain ⟨acts₁, acts₂, v, rfl, -, hl, -⟩ := h
  exact hl.mono _

/-- The handler of a send is one that it has found when it looked up. -/
theorem Saw.lookedUp (hk : Saw c s₀ acts k) (hkept : k.Kept c) {h : Resolved} (hh : k.handler = some h) :
    LookedUp c k.msg.type s₀ acts h.funcMeta := by
  have hready := hkept.ready
  unfold Call.Ready at hready
  by_cases he : k.phase.Early
  · cases hp : k.phase with
    | entered =>
      rw [hp, hh] at hready
      cases hready
    | resolving m =>
      rw [hp, hh] at hready
      cases hready.2.1
    | resolved r =>
      rw [hp, hh] at hready
      cases hready.2
      exact hk.found _ (by rw [hp]; rfl)
    | _ =>
      rw [hp] at he
      exact he.elim
  · rcases hk.late he with ⟨hnone, -⟩ | ⟨r, hr, hread⟩
    · rw [hh] at hnone
      cases hnone
    · rw [hh] at hr
      cases hr
      exact hread.lookedUp

/-- A send that has guards to call, or has called a handler, has read its guard list. -/
theorem Saw.hasRead (hk : Saw c s₀ acts k) (hkept : k.Kept c) (hne : k.listed ≠ [] ∨ k.deliveries ≠ []) :
    ∃ h, k.handler = some h ∧ HasRead c k.msg.type s₀ acts h.funcMeta k.listed := by
  have hnot : k.listed = [] → k.log = [] → False := fun hl hlog =>
    hne.elim (fun h => h hl) fun h => h (Call.deliveries_nil hlog)
  by_cases he : k.phase.Early
  · exact (hnot (hk.early he) (hkept.early (prepares_of_early he)).2.2).elim
  · exact (hk.late he).resolve_left fun ⟨_, hl, hlog, _⟩ => hnot hl hlog

/-! ### Between the two moments -/

/-- Commands have a type that has instances. -/
theorem type_ne_any (hrun : Run.run step (new bases) acts = some s) (hk : s.calls[c]? = some k) :
    k.msg.type ≠ Cls.any :=
  (prepared_run (J := []) (fun c k hk => by simp [new] at hk) (journaled_new bases) hrun c k hk).1

/-- The guard list of a type loses no guard. -/
theorem commandGuards_sublist {acts₀ : List SysAct} (hrun₀ : Run.run step (new bases) acts₀ = some s₀)
    (hrun : Run.run step s₀ acts = some s) (hT : T ≠ Cls.any) :
    (s₀.world.commandGuards T).Sublist (s.world.commandGuards T) := by
  have hJ := journaled_of_run hrun₀
  rw [hJ.commandGuards hT, (journaled_run hJ hrun).commandGuards hT]
  exact guardList_sublist _ _ T

/-- The handler of a type stays as long as no registry is included that covers the type. -/
theorem handlerMetas_same {acts₀ : List SysAct} (hrun₀ : Run.run step (new bases) acts₀ = some s₀)
    (hrun : Run.run step s₀ acts = some s)
    (hno : ∀ K₁ e K₂, s₀.journal acts = K₁ ++ e :: K₂ → ¬ IncludesType bases T ((new bases).journal acts₀ ++ K₁) e) :
    s.world.managers.handlerManager.handlerMetas.get? T = s₀.world.managers.handlerManager.handlerMetas.get? T := by
  have hJ := journaled_of_run hrun₀
  rw [hJ.handlers, (journaled_run hJ hrun).handlers]
  exact resolved_append hno

/-- Whatever is registered and included while a send is on its way: its handler is the one of its type at the moment
it looked up, and its guard list that of its type at the later moment it read it, both after its beginning.  The list
has all guards that were in it when the send began, in their order; and unless a registry that covers the type was
included in between, handler and list are both those of the later moment. -/
theorem send_sees_moments (bases : Nat → Option Cls × Option Cls) (acts : List SysAct) (s : System)
    (hrun : Run.run step (new bases) acts = some s) (c : Nat) (k : Call) (hk : s.calls[c]? = some k)
    (hsend : k.method = .send) (hp : k.phase = .entered) (acts' : List SysAct) (s' : System)
    (hrun' : Run.run step s acts' = some s') :
    ∃ k', s'.calls[c]? = some k' ∧ k'.msg = k.msg ∧
      (∀ h, k'.handler = some h → ∃ acts₁ acts₂ u, acts' = acts₁ ++ .call c .lookup :: acts₂ ∧
        Run.run step s acts₁ = some u ∧
        u.world.managers.handlerManager.handlerMetas.get? k.msg.type = some h.funcMeta) ∧
      (k'.listed ≠ [] ∨ k'.deliveries ≠ [] → ∃ h acts₁ acts₂ acts₃ u v, k'.handler = some h ∧
        acts' = acts₁ ++ .call c .lookup :: acts₂ ++ .call c .readGuards :: acts₃ ∧
        Run.run step s acts₁ = some u ∧ Run.run step u (.call c .lookup :: acts₂) = some v ∧
        u.world.managers.handlerManager.handlerMetas.get? k.msg.type = some h.funcMeta ∧
        k'.listed = v.world.commandGuards k.msg.type ∧ (s.world.commandGuards k.msg.type).Sublist k'.listed ∧
        ((∀ K₁ e K₂, u.journal (.call c .lookup :: acts₂) = K₁ ++ e :: K₂ →
            ¬ IncludesType bases k.msg.type ((new bases).journal (acts ++ acts₁) ++ K₁) e) →
          v.world.managers.handlerManager.handlerMetas.get? k.msg.type = some h.funcMeta)) := by
  obtain ⟨k', hk', -, hmsg, hsaw⟩ := saw_run hrun hk hsend hp hrun'
  have hkept := (traced_of_run (Run.run_append.2 ⟨s, hrun, hrun'⟩)).kept c k' hk'
  refine ⟨k', hk', hmsg, fun h hh => hmsg ▸ hsaw.lookedUp hkept hh, fun hne => ?_⟩
  obtain ⟨h, hh, acts₁', acts₃, v, rfl, hv, ⟨acts₁, acts₂, u, rfl, hu, hm⟩, hlisted⟩ := hsaw.hasRead hkept hne
  rw [hmsg] at hm hlisted
  have hua : Run.run step (new bases) (acts ++ acts₁) = some u := Run.run_append.2 ⟨s, hrun, hu⟩
  have huv : Run.run step u (.call c .lookup :: acts₂) = some v := by
    obtain ⟨u', hu', huv⟩ := Run.run_append.1 hv
    rw [hu, Option.some.injEq] at hu'
    exact hu' ▸ huv
  refine ⟨h, acts₁, acts₂, acts₃, u, v, hh, rfl, hu, huv, hm, hlisted, ?_, fun hno => ?_⟩
  · rw [hlisted]
    exact commandGuards_sublist hrun hv (type_ne_any hrun hk)
  · rw [handlerMetas_same hua huv hno]
    exact hm

/-! ### Sends with guards of their own -/

/-- No other send has linked a guard of call `c`. -/
def Unshared (s : System) (c : Nat) (k : Call) : Prop :=
  ∀ (d : Nat) (k' : Call), d ≠ c → s.calls[d]? = some k' → k'.method = .send → ∀ g ∈ k.guards, g ∉ k'.guards

/-- A send whose guards are its own has linked them when nobody else had. -/
private theorem Unshared.before (hs : s.Traced) (h : s.step a = some s') (hun : s'.Unshared c k')
    (hguards : ∀ g ∈ k.guards, g ∈ k'.guards) : s.Unshared c k := by
  intro d k₁ hne hk₁ hsend g hg hg₁
  obtain ⟨k₂, hk₂, ⟨rfl, -⟩ | ⟨b, -, hst⟩⟩ := step_of_call h hk₁
  · exact hun d k₂ hne hk₂ hsend g (hguards g hg) hg₁
  · have hsame := ((hs.kept d k₁ hk₁).steps_same hst).2 (List.ne_nil_of_mem hg₁)
    exact hun d k₂ hne hk₂ (hst.args.1.trans hsend) g (hguards g hg) (hsame ▸ hg₁)

/-- The guards that another send links are not among those of a send whose guards are its own. -/
private theorem Unshared.notMem (hs : s.Traced) (h : s.step a = some s') (hun : s'.Unshared c k) {d : Nat}
    {objs : List GuardObj} (ha : a = .call d (.chain objs)) (hne : d ≠ c) {x : GuardObj} (hx : x ∈ k.guards) :
    x ∉ objs := by
  subst ha
  cases steps_of_step h with
  | @call d b k₁ k₁' w links hk₁ hst =>
    cases hst with
    | @chain r metas head rest hp _ =>
      have hready := (hs.kept d k₁ hk₁).ready
      unfold Call.Ready at hready
      rw [hp] at hready
      refine hun d _ hne (List.getElem?_set_self (List.getElem?_eq_some_iff.1 hk₁).1) hready.1 x hx
    | dungling _ hd => cases hd

/-- In every run a send whose guards are its own is sound. -/
theorem sound_of_unshared (hrun : Run.run step (new bases) acts = some s) (hk : s.calls[c]? = some k)
    (hsend : k.method = .send) (hun : s.Unshared c k) : k.Sound s.links c := by
  induction acts using List.reverseRecOn generalizing s k with
  | nil =>
    cases hrun
    simp [new] at hk
  | append_singleton acts a ih =>
    obtain ⟨t, ht, hrun⟩ := Run.run_append.1 hrun
    obtain ⟨_, hstep, hrun⟩ := Run.run_cons.1 hrun
    cases hrun
    have htraced := traced_of_run ht
    rcases step_calls hstep hk with ⟨hkt, hne⟩ | ⟨method, msg, context, scope, -, -, -, rfl, -⟩ | ⟨b, k₀, rfl, hkt, hst⟩
    · -- the send has not moved
      refine (ih ht hkt hsend (hun.before htraced hstep fun _ => id)).other fun x hx => ?_
      have hmem : x ∈ k.guards := by
        unfold Call.unread at hx
        split at hx
        · exact List.mem_of_mem_filter hx
        · cases hx
      rcases step_links hstep with ⟨hl, -⟩ | ⟨d, head, rest, e, ha, hl⟩
      · rw [hl]
      · rw [hl]
        exact Chain.linkFrom_of_notMem (hun.notMem htraced hstep ha (fun hd => hne (.chain _) (by rw [ha, hd])) hmem)
    · -- it has just begun
      obtain rfl : method = .send := hsend
      exact Call.sound_begin _ _ _ _ _
    · -- it has moved
      have hsame := ((htraced.kept c k₀ hkt).steps_same hst).2
      have hguards : ∀ g ∈ k₀.guards, g ∈ k.guards := fun g hg => (hsame (List.ne_nil_of_mem hg)).symm ▸ hg
      rw [hst.args.1] at hsend
      exact (ih ht hkt hsend (hun.before htraced hstep hguards)).steps hsend (journaled_of_run ht).messageType hst

/-- Whatever is registered and included while a send is on its way: if it shares no guard object with another send and
its list skips no guard, it has called the guards that were in the list of its type when it began before it calls a
handler, and the handler is the one that it has resolved itself; it calls it once, as class-based guards call the next
one at most once, with their own arguments. -/
theorem guarded_since_begin (bases : Nat → Option Cls × Option Cls) (acts : List SysAct) (s : System)
    (hrun : Run.run step (new bases) acts = some s) (c : Nat) (k : Call) (hk : s.calls[c]? = some k)
    (hsend : k.method = .send) (hp : k.phase = .entered) (acts' : List SysAct) (s' : System)
    (hrun' : Run.run step s acts' = some s') (k' : Call) (hk' : s'.calls[c]? = some k')
    (hun : s'.Unshared c k') (hskip : Chain.NoSkip k'.guards) (hd : k'.deliveries ≠ []) :
    ∃ objs h, ResolveTo (s.world.commandGuards k.msg.type) objs ∧ objs.Sublist k'.guards ∧
      (∀ g ∈ objs, g ∈ k'.entered) ∧ k'.deliveries = [(h, k.msg)] ∧ h.call = c ∧ h.scope = k'.scope ∧
      LookedUp c k.msg.type s acts' h.funcMeta := by
  obtain ⟨k₁, hk₁, hsend', hmsg, hsaw⟩ := saw_run hrun hk hsend hp hrun'
  rw [hk'] at hk₁
  cases hk₁
  have hall : Run.run step (new bases) (acts ++ acts') = some s' := Run.run_append.2 ⟨s, hrun, hrun'⟩
  have hsound := sound_of_unshared hall hk' hsend' hun
  obtain ⟨h, hdel, hh, hent, hres⟩ := hsound.delivered.resolve_left hd
  obtain ⟨r, hr, hread⟩ := hsaw.hasRead ((traced_of_run hall).kept c k' hk') (Or.inr hd)
  rw [hh] at hr
  cases hr
  have hlook := hread.lookedUp
  obtain ⟨acts₁, acts₂, v, rfl, hv, -, hlisted⟩ := hread
  rw [hmsg] at hlisted hdel hlook
  have hsub := commandGuards_sublist hrun hv (type_ne_any hrun hk)
  rw [← hlisted] at hsub
  obtain ⟨objs, hobjs, hsub'⟩ := hres.sublist hsub
  refine ⟨objs, h, hobjs, hsub', fun g hg => ?_, hdel, (hsound.own h hh).1, (hsound.own h hh).2.1, hlook⟩
  rw [hent, Chain.mem_visited hskip]
  exact hsub'.subset hg

end

/-! ### A registry that is included while a command is on its way -/

open UserApp

/-- A class with a handler of `CreateUser`; a send awaits its instance after the lookup. -/
def userService : Target := .cls ⟨7, [("create", ⟨6, [⟨"self", .empty⟩, ⟨"cmd", .cls CreateUser⟩], true⟩)], []⟩

/-- The class and a guard are in registry 0, another guard is in registry 1, and registry 0 is included. -/
def included : List SysAct :=
  setup ++ [.world (.define [Cls.object]), .world (.register 0 .listed userService),
    .world (.preHandle 0 .listed (guardFunc 3 CreateUser)), .world (.preHandle 1 .listed (guardFunc 4 CreateUser)),
    .world (.incl 0)]

/-- A command is sent. -/
def started : List SysAct := included ++ [.start .send ⟨0, CreateUser⟩ none none]

/-- After the lookup registry 1 gets a handler for the command, and is included.  Then the send goes on, up to the call
of its handler. -/
def meanwhile : List SysAct :=
  [.call 0 .lookup, .world (.register 1 .listed (handler 5 CreateUser)), .world (.incl 1), .call 0 .resolveMeta,
    .call 0 .readGuards, .call 0 (.chain [firstGuard, secondGuard]), .call 0 .callNext, .call 0 .callNext]

private theorem meanwhile_run : ∃ s s' k', Run.run step (new bases) started = some s ∧
    s.calls[0]? = some (begin 0 .send ⟨0, CreateUser⟩ none none) ∧ Run.run step s meanwhile = some s' ∧
    s'.calls = [k'] ∧ k'.guards = [firstGuard, secondGuard] ∧ k'.deliveries.length = 1 ∧
    (∀ h, k'.handler = some h → h.funcMeta.handler.id = 6) ∧
    (s'.world.managers.handlerManager.handlerMetas.get? CreateUser).map (fun m => m.handler.id) = some 5 := by
  have hsetup : (Run.run step (new bases) included).map (fun s =>
      decide (HasInstances s.world CreateUser ∧ s.calls.length = 0)) = some true := by
    decide +kernel
  have hrun : (Run.run step (new bases) (started ++ meanwhile)).map (fun s =>
      (s.calls.map fun k => (k.guards, k.deliveries.length, k.handler.map fun h => h.funcMeta.handler.id),
        (s.world.managers.handlerManager.handlerMetas.get? CreateUser).map fun m => m.handler.id)) =
      some ([([firstGuard, secondGuard], 1, some 6)], some 5) := by
    decide +kernel
  obtain ⟨s₀, hs₀, hd⟩ := Option.map_eq_some_iff.1 hsetup
  obtain ⟨hi, hlen⟩ := of_decide_eq_true hd
  have hi : HasInstances s₀.world (⟨0, CreateUser⟩ : Msg).type := hi
  obtain ⟨s, hs, hk, -, -⟩ := step_start hi .send none none
  rw [hlen] at hk
  have hstarted : Run.run step (new bases) started = some s :=
    Run.run_append.2 ⟨s₀, hs₀, Run.run_cons.2 ⟨s, hs, rfl⟩⟩
  obtain ⟨s', hall, hout⟩ := Option.map_eq_some_iff.1 hrun
  obtain ⟨t, ht, hmeanwhile⟩ := Run.run_append.1 hall
  rw [hstarted, Option.some.injEq] at ht
  subst ht
  obtain ⟨hcalls, hnew⟩ := Prod.mk.inj hout
  obtain ⟨k', hk', hsketch⟩ := List.map_eq_singleton_iff.1 hcalls
  obtain ⟨hg, hrest⟩ := Prod.mk.inj hsketch
  obtain ⟨hdel, hh⟩ := Prod.mk.inj hrest
  refine ⟨s, s', k', hstarted, hk, hmeanwhile, hk', hg, hdel, fun h hhandler => ?_, hnew⟩
  rw [hhandler] at hh
  exact Option.some.inj hh

/-- The send goes to the handler that it had looked up, though the command has another one by then, and through the
guards of the later moment. -/
theorem meanwhile_sees_both :
    ∃ s s' k' h acts₁ acts₂ acts₃ u v, Run.run step (new bases) started = some s ∧
      Run.run step s meanwhile = some s' ∧ s'.calls[0]? = some k' ∧ k'.handler = some h ∧ h.funcMeta.handler.id = 6 ∧
      (s'.world.managers.handlerManager.handlerMetas.get? CreateUser).map (fun m => m.handler.id) = some 5 ∧
      meanwhile = acts₁ ++ .call 0 .lookup :: acts₂ ++ .call 0 .readGuards :: acts₃ ∧
      Run.run step s acts₁ = some u ∧ Run.run step u (.call 0 .lookup :: acts₂) = some v ∧
      k'.listed = v.world.commandGuards CreateUser ∧ (s.world.commandGuards CreateUser).Sublist k'.listed := by
  obtain ⟨s, s', k', hs, hk, hrun, hcalls, -, hdel, hold, hnew⟩ := meanwhile_run
  obtain ⟨k₁, hk₁, -, -, hread⟩ := send_sees_moments bases started s hs 0 _ hk rfl rfl meanwhile s' hrun
  have hk' : s'.calls[0]? = some k' := by rw [hcalls]; rfl
  rw [hk'] at hk₁
  cases hk₁
  have hne : k'.deliveries ≠ [] := fun hnil => by simp [hnil] at hdel
  obtain ⟨h, acts₁, acts₂, acts₃, u, v, hh, hacts, hu, hv, -, hlisted, hsub, -⟩ := hread (Or.inr hne)
  exact ⟨s, s', k', h, acts₁, acts₂, acts₃, u, v, hs, hrun, hk', hh, hold h hh, hnew, hacts, hu, hv, hlisted, hsub⟩

/-- It has called the guard that was there when it began. -/
theorem meanwhile_guarded :
    ∃ s s' k' objs h, Run.run step (new bases) started = some s ∧ Run.run step s meanwhile = some s' ∧
      s'.calls[0]? = some k' ∧ ResolveTo (s.world.commandGuards CreateUser) objs ∧ (∀ g ∈ objs, g ∈ k'.entered) ∧
      k'.deliveries = [(h, ⟨0, CreateUser⟩)] ∧ h.call = 0 := by
  obtain ⟨s, s', k', hs, hk, hrun, hcalls, hguards, hdel, -, -⟩ := meanwhile_run
  have hk' : s'.calls[0]? = some k' := by rw [hcalls]; rfl
  have hun : s'.Unshared 0 k' := by
    intro d k₁ hne hk₁
    rw [hcalls] at hk₁
    rcases d with _ | d
    · exact absurd rfl hne
    · cases hk₁
  obtain ⟨objs, h, hobjs, -, hent, hdel', hc, -⟩ := guarded_since_begin bases started s hs 0 _ hk rfl rfl meanwhile s'
    hrun k' hk' hun (by rw [hguards]; decide) fun hnil => by simp [hnil] at hdel
  exact ⟨s, s', k', objs, h, hs, hrun, hk', hobjs, hent, hdel', hc⟩

end System

end Anywise
