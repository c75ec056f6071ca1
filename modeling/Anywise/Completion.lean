import Anywise.Linking
import Mathlib.Data.List.Perm.Subperm

/-!
# Calls that go on alone

Whatever the other calls have done to the links, a call that goes on by itself comes to an end: `Call.Budget` bounds
the actions it still takes, each of them diminishes the budget (`Call.Budget.steps`), and until the end there is one
to take (`Call.Budget.progress`).  The bound counts the guards on the way that the links show and those around the
call, each of which acts twice at most.
-/

namespace Anywise

namespace Call

/-- The call takes at most `n` more actions of its own. -/
def Budget (w : World) (links : Links) (k : Call) (n : Nat) : Prop :=
  match k.phase with
  | .entered => n = 2 * (w.commandGuards k.msg.type).length +
      2 * (w.managers.listenerManager.listenerMetas.getD k.msg.type).length + 6
  | .resolving _ => n = 2 * (w.commandGuards k.msg.type).length + 5
  | .resolved _ => n = 2 * (w.commandGuards k.msg.type).length + 4
  | .chaining _ metas => metas ≠ [] ∧ n = 2 * metas.length + 3
  | .before f outer => ∃ ahead h, Chain.Path links (.inl f.guard) (f.guard :: ahead) h ∧
      n = 2 * (ahead.length + 1) + outer.length + 1
  | .handling _ outer => n = outer.length + 1
  | .after _ outer _ => n = outer.length + 1
  | .failed _ outer _ => n = outer.length + 1
  | .listening ls => n = 2 * ((w.managers.listenerManager.listenerMetas.getD k.msg.type).length - ls.length) +
      ls.length + 2
  | .publishing rest => n = rest.length + 1
  | .done _ => n = 0

variable {w w' : World} {links links' : Links} {c n : Nat} {k k' : Call} {a : CallAct}

/-! ### Every action costs -/

private theorem budget_returnTo (w : World) (links : Links) (k : Call) (outer : List Frame) (v : Value) :
    ∃ n ≤ outer.length, (k.returnTo outer v).Budget w links n := by
  induction outer with
  | nil => exact ⟨0, le_rfl, rfl⟩
  | cons f outer ih =>
    obtain ⟨n, hle, hn⟩ := ih
    unfold returnTo
    split
    · exact ⟨outer.length + 1, by simp, rfl⟩
    · exact ⟨n, by simp; omega, hn⟩
    · exact ⟨outer.length + 1, by simp, rfl⟩

private theorem budget_raiseTo (w : World) (links : Links) (k : Call) (outer : List Frame) (e : PyErr) :
    ∃ n ≤ outer.length, (k.raiseTo outer e).Budget w links n := by
  induction outer with
  | nil => exact ⟨0, le_rfl, rfl⟩
  | cons f outer ih =>
    obtain ⟨n, hle, hn⟩ := ih
    unfold raiseTo
    split
    · exact ⟨outer.length + 1, by simp, rfl⟩
    · exact ⟨n, by simp; omega, hn⟩

private theorem budget_publishNext (w : World) (links : Links) (k : Call) (c : Nat) (ls : List Resolved) :
    ∃ n ≤ ls.length, (k.publishNext c ls).Budget w links n := by
  cases ls with
  | nil => exact ⟨0, le_rfl, rfl⟩
  | cons h rest => exact ⟨rest.length + 1, by simp, rfl⟩

private theorem runsIn_budget {outer : List Frame} (hk : k.Budget w links n) (hp : k.phase.RunsIn outer) :
    outer.length < n := by
  unfold Budget at hk
  generalize k.phase = p at hp hk
  cases hp with
  | before _ _ =>
    obtain ⟨ahead, h, -, rfl⟩ := hk
    omega
  | handling _ _ | after _ _ _ | failed _ _ _ =>
    dsimp only at hk
    omega

private theorem length_visited_le (l : List GuardObj) : (Chain.visited l).length ≤ l.length :=
  (List.subperm_of_subset (Chain.visited_nodup l) fun _ => Chain.visited_subset).length_le

/-- The guard list of a send, and the listeners of a publish, are not changed by what the send reads. -/
private theorem nextListener_lt {ls : List Resolved} {m : FuncMeta} (h : k.nextListener w ls = some m) :
    ls.length < (w.managers.listenerManager.listenerMetas.getD k.msg.type).length :=
  (List.getElem?_eq_some_iff.1 h).1

/-- Every action of the call diminishes its budget. -/
theorem Budget.steps (hk : k.Budget w links n) (h : Call.Steps w links c k a w' links' k') :
    ∃ n' < n, k'.Budget w' links' n' := by
  cases h with
  | unregistered hp _ =>
    simp only [Budget, hp] at hk
    exact ⟨0, by omega, rfl⟩
  | found hp _ _ =>
    simp only [Budget, hp] at hk
    exact ⟨2 * (w.commandGuards k.msg.type).length + 5, by omega, rfl⟩
  | listen hp _ _ =>
    simp only [Budget, hp] at hk
    exact ⟨_, by simp; omega, rfl⟩
  | resolve hp =>
    simp only [Budget, hp] at hk
    exact ⟨2 * (w.commandGuards k.msg.type).length + 4, by omega, rfl⟩
  | resolveListener hp hm =>
    simp only [Budget, hp] at hk
    have hlt := nextListener_lt hm
    refine ⟨_, ?_, rfl⟩
    simp only [List.length_append, List.length_singleton]
    omega
  | unguarded hp _ =>
    simp only [Budget, hp] at hk
    exact ⟨1, by omega, rfl⟩
  | guarded hp hg =>
    simp only [Budget, hp] at hk
    exact ⟨_, by omega, hg, rfl⟩
  | @chain h metas head rest hp hr =>
    simp only [Budget, hp] at hk
    obtain ⟨-, rfl⟩ := hk
    obtain ⟨tail, htail⟩ := Chain.visited_cons head rest
    have hpath := Chain.path_linkFrom links head rest h
    have hlen := length_visited_le (head :: rest)
    rw [htail] at hpath hlen
    rw [← hr.length_eq, List.length_cons] at hlen
    exact ⟨_, by rw [List.length_nil]; omega, tail, h, hpath, rfl⟩
  | @dungling _ f outer hp _ =>
    simp only [Budget, hp] at hk
    obtain ⟨ahead, h, -, rfl⟩ := hk
    obtain ⟨n', hle, hn'⟩ := budget_raiseTo w links k (f :: outer) (.dunglingGuard f.guard)
    rw [List.length_cons] at hle
    exact ⟨n', by omega, hn'⟩
  | @next f outer m hp hl =>
    simp only [Budget, hp] at hk
    obtain ⟨ahead, h, hpath, rfl⟩ := hk
    cases hpath with
    | step hx hpath =>
      rw [hl, Option.some.injEq] at hx
      subst hx
      cases hpath with
      | stop => exact ⟨(f :: outer).length + 1, by simp only [List.length_cons]; omega, rfl⟩
      | @step g _ ahead _ hg hpath =>
        refine ⟨_, ?_, ahead, h, .step hg hpath, rfl⟩
        simp only [List.length_cons]
        omega
  | firstListener hp _ =>
    simp only [Budget, hp] at hk
    obtain ⟨n', hle, hn'⟩ := budget_publishNext w links k c _
    exact ⟨n', by omega, hn'⟩
  | answer hp _ =>
    obtain ⟨n', hle, hn'⟩ := budget_returnTo w links k _ _
    exact ⟨n', hle.trans_lt (runsIn_budget hk hp), hn'⟩
  | nextListener hp =>
    simp only [Budget, hp] at hk
    obtain ⟨n', hle, hn'⟩ := budget_publishNext w links k c _
    exact ⟨n', by omega, hn'⟩
  | raise hp =>
    obtain ⟨n', hle, hn'⟩ := budget_raiseTo w links k _ _
    exact ⟨n', hle.trans_lt (runsIn_budget hk hp), hn'⟩
  | failListener hp _ =>
    simp only [Budget, hp] at hk
    exact ⟨0, by omega, rfl⟩
  | fail hp =>
    refine ⟨0, ?_, rfl⟩
    generalize hph : k.phase = p at hp
    simp only [Budget, hph] at hk
    cases hp with
    | resolving _ | chaining _ _ | publishing _ =>
      dsimp only at hk
      omega

/-! ### Until the end there is an action -/

private theorem exists_resolvesTo (r : GuardRef) : ∃ o, r.ResolvesTo o := by
  cases r with
  | obj g => exact ⟨g, rfl⟩
  | cls d => exact ⟨.custom 0 d, rfl⟩

private theorem exists_resolveTo (metas : List GuardMeta) : ∃ objs, ResolveTo metas objs := by
  induction metas with
  | nil => exact ⟨[], .nil⟩
  | cons m metas ih =>
    obtain ⟨o, ho⟩ := exists_resolvesTo m.guard
    obtain ⟨objs, hobjs⟩ := ih
    exact ⟨o :: objs, .cons ho hobjs⟩

/-- A call with a budget is at its end, or can take an action. -/
theorem Budget.progress (hk : k.Budget w links n) (c : Nat) :
    (∃ r, k.phase = .done r) ∨ ∃ a w' links' k', Call.Steps w links c k a w' links' k' := by
  have hanswer : ∀ outer, k.phase.RunsIn outer → (∀ f o, k.phase ≠ .before f o) →
      ∃ a w' links' k', Call.Steps w links c k a w' links' k' :=
    fun outer hr hno => ⟨.answer none, _, _, _, .answer hr fun f o ho => absurd ho (hno f o)⟩
  unfold Budget at hk
  cases hp : k.phase with
  | done r => exact Or.inl ⟨r, rfl⟩
  | entered =>
    right
    cases hm : k.method with
    | send =>
      cases hget : w.managers.handlerManager.handlerMetas.get? k.msg.type with
      | none => exact ⟨_, _, _, _, .unregistered hp (Or.inl ⟨hm, hget⟩)⟩
      | some m => exact ⟨_, _, _, _, .found hp hm hget⟩
    | publish =>
      cases hget : w.managers.listenerManager.listenerMetas.get? k.msg.type with
      | none => exact ⟨_, _, _, _, .unregistered hp (Or.inr ⟨hm, hget⟩)⟩
      | some metas => exact ⟨_, _, _, _, .listen hp hm hget⟩
  | resolving m => exact Or.inr ⟨_, _, _, _, .resolve hp⟩
  | resolved h =>
    right
    by_cases hg : w.commandGuards k.msg.type = []
    · exact ⟨_, _, _, _, .unguarded hp hg⟩
    · exact ⟨_, _, _, _, .guarded hp hg⟩
  | chaining h metas =>
    rw [hp] at hk
    obtain ⟨objs, hr⟩ := exists_resolveTo metas
    cases objs with
    | nil => exact absurd (List.forall₂_nil_right_iff.1 hr) hk.1
    | cons head rest => exact Or.inr ⟨_, _, _, _, .chain hp hr⟩
  | before f outer =>
    rw [hp] at hk
    obtain ⟨ahead, h, hpath, -⟩ := hk
    cases hpath with
    | step hx _ => exact Or.inr ⟨_, _, _, _, .next hp hx⟩
  | handling h outer => exact Or.inr (hanswer outer (hp ▸ .handling h outer) (by simp [hp]))
  | after f outer v => exact Or.inr (hanswer outer (hp ▸ .after f outer v) (by simp [hp]))
  | failed f outer e => exact Or.inr (hanswer outer (hp ▸ .failed f outer e) (by simp [hp]))
  | listening ls =>
    right
    cases hm : k.nextListener w ls with
    | none => exact ⟨_, _, _, _, .firstListener hp hm⟩
    | some m => exact ⟨_, _, _, _, .resolveListener hp hm⟩
  | publishing rest => exact Or.inr ⟨.answer none, _, _, _, .nextListener hp⟩

/-- A guard list that is linked is not empty. -/
theorem Steps.chaining {h : Resolved} {metas : List GuardMeta} (hst : Call.Steps w links c k a w' links' k')
    (hp : k'.phase = .chaining h metas) : metas ≠ [] := by
  have hprep : k'.phase.Prepares := by
    rw [hp]
    trivial
  cases hst with
  | guarded _ hg =>
    cases hp
    exact hg
  | dungling _ _ => exact absurd hprep (raiseTo_leaves k (_ :: _) _).1.not_prepares
  | answer _ _ => exact absurd hprep (returnTo_leaves k _ _).1.not_prepares
  | raise _ => exact absurd hprep (raiseTo_leaves k _ _).1.not_prepares
  | next _ _ => exact absurd hprep (enterNext_not_prepares _ _ _ _ _)
  | firstListener _ _ => exact absurd hprep (publishNext_not_prepares _ _ _)
  | nextListener _ => exact absurd hprep (publishNext_not_prepares _ _ _)
  | _ => cases hp

end Call

namespace System

section

variable {bases : Nat → Option Cls × Option Cls} {s s' : System} {c : Nat}

/-- Call number `c` takes at most `n` more actions of its own. -/
def Budget (c : Nat) (s : System) (n : Nat) : Prop :=
  ∃ k : Call, s.calls[c]? = some k ∧ k.Budget s.world s.links n

/-- The action is one of call number `c`. -/
def ActionOf (c : Nat) (a : SysAct) : Prop := ∃ b, a = .call c b

theorem Budget.step {a : SysAct} {n : Nat} (hs : Budget c s n) (ha : ActionOf c a) (h : s.step a = some s') :
    ∃ n' < n, Budget c s' n' := by
  obtain ⟨b, rfl⟩ := ha
  obtain ⟨k, hk, hbudget⟩ := hs
  obtain ⟨k', hk', ⟨-, hne⟩ | ⟨b', ha, hst⟩⟩ := step_of_call h hk
  · exact absurd rfl (hne b)
  · cases ha
    obtain ⟨n', hlt, hn'⟩ := hbudget.steps hst
    exact ⟨n', hlt, k', hk', hn'⟩

/-- Every call of a run has a budget. -/
theorem budget_of_run {acts : List SysAct} (hrun : Run.run step (new bases) acts = some s) {k : Call}
    (hk : s.calls[c]? = some k) : ∃ n, Budget c s n := by
  have hmetas : ∀ (c : Nat) (k : Call) (h : Resolved) (metas : List GuardMeta), s.calls[c]? = some k →
      k.phase = .chaining h metas → metas ≠ [] := by
    refine Run.preserved (I := fun s : System => ∀ (c : Nat) (k : Call) (h : Resolved) (metas : List GuardMeta),
      s.calls[c]? = some k → k.phase = .chaining h metas → metas ≠ []) (fun s a s' hs hstep c k h metas hk hp => ?_)
      (by simp [new]) hrun
    rcases step_calls hstep hk with ⟨hk, -⟩ | ⟨_, _, _, _, -, -, -, rfl, -⟩ | ⟨b, k₀, -, -, hst⟩
    · exact hs c k h metas hk hp
    · cases hp
    · exact hst.chaining hp
  obtain ⟨ks, hlinked⟩ := linked_of_run hrun
  have hbudget : ∃ n, k.Budget s.world s.links n := by
    unfold Call.Budget
    cases hp : k.phase with
    | chaining h metas => exact ⟨_, hmetas c k h metas hk hp, rfl⟩
    | before f outer =>
      obtain ⟨ahead, h, hpath⟩ := hlinked.next hk hp
      exact ⟨_, ahead, h, hpath, rfl⟩
    | _ => exact ⟨_, rfl⟩
  obtain ⟨n, hn⟩ := hbudget
  exact ⟨n, k, hk, hn⟩

end

/-- From every state that a run reaches, whatever the calls have done to each other's links, every call that goes on
alone takes a bounded number of actions, whatever user code answers, and gets stuck nowhere before its end.  A
class-based guard calls the next one at most once (with its own arguments): one that tries again need not end. -/
theorem ends_alone (bases : Nat → Option Cls × Option Cls) (acts : List SysAct) (s : System)
    (hrun : Run.run step (new bases) acts = some s) (c : Nat) (k : Call) (hk : s.calls[c]? = some k) :
    ∃ n, ∀ alone s', (∀ a ∈ alone, ActionOf c a) → Run.run step s alone = some s' →
      alone.length ≤ n ∧ ∃ k', s'.calls[c]? = some k' ∧
        ((∃ r, k'.phase = .done r) ∨ ∃ b s'', s'.step (.call c b) = some s'') := by
  obtain ⟨n, hn⟩ := budget_of_run hrun hk
  refine ⟨n, fun alone s' halone hrun' => ?_⟩
  obtain ⟨n', hle, k', hk', hbudget⟩ :=
    Run.length_le_budget (P := ActionOf c) (fun _ _ _ _ hs ha h => Budget.step hs ha h) hn halone hrun'
  refine ⟨by omega, k', hk', (hbudget.progress c).imp_right ?_⟩
  rintro ⟨b, w', links', k'', hst⟩
  obtain ⟨s'', hs'', -⟩ := step_call hk' hst
  exact ⟨b, s'', hs''⟩

/-! ### A send that has gone astray -/

open UserApp

/-- The guard of `UpdateUser` alone. -/
def updateGuard : GuardObj := .guard 0 2 UpdateUser (some 5) none

/-- A guard for both commands is followed by one for each.  Both commands are sent.  The second send links the guard
that they share when the first one is in it, and takes the first one to the guard of the other command. -/
def astray : List SysAct :=
  setup ++ [.world (.preHandle 0 .listed (guardFunc 3 Cls.any)),
      .world (.preHandle 0 .listed (guardFunc 4 CreateUser)), .world (.preHandle 0 .listed (guardFunc 5 UpdateUser)),
      .world (.incl 0)] ++
    sendUpTo 0 ⟨0, CreateUser⟩ [guardForAny, .guard 0 1 CreateUser (some 4) none] ++
    sendUpTo 1 ⟨1, UpdateUser⟩ [guardForAny, updateGuard] ++ [.call 0 .callNext]

/-- Left alone there, it comes to an end. -/
theorem astray_ends :
    ∃ s k n, Run.run step (new bases) astray = some s ∧ s.calls[0]? = some k ∧ k.msg.type = CreateUser ∧
      k.entered = [guardForAny, updateGuard] ∧
      ∀ alone s', (∀ a ∈ alone, ActionOf 0 a) → Run.run step s alone = some s' →
        alone.length ≤ n ∧ ∃ k', s'.calls[0]? = some k' ∧
          ((∃ r, k'.phase = .done r) ∨ ∃ b s'', s'.step (.call 0 b) = some s'') := by
  have hrun : ((Run.run step (new bases) astray).bind fun s => s.calls[0]?.map fun k => (k.msg.type, k.entered)) =
      some (CreateUser, [guardForAny, updateGuard]) := by
    decide +kernel
  obtain ⟨s, hs, hk⟩ := Option.bind_eq_some_iff.1 hrun
  obtain ⟨k, hk, hres⟩ := Option.map_eq_some_iff.1 hk
  obtain ⟨htype, hentered⟩ := Prod.mk.inj hres
  obtain ⟨n, hn⟩ := ends_alone bases astray s hs 0 k hk
  exact ⟨s, k, n, hs, hk, htype, hentered, hn⟩

end System

end Anywise
