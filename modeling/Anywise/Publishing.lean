import Anywise.Sharing
import Anywise.Soundness

/-!
# Publishes

A publish first resolves the listeners of its type, one after another, and calls nothing until it has resolved all
that are in the list by then (`Call.Waits`).  Then it calls them in the order of the list, each when the one before it
has returned (`Call.Publishes`).
-/

namespace Anywise

def Resolved.listener (h : Resolved) : Listener := h.funcMeta.listener

namespace Call

/-! ### A publish in progress -/

/-- The listeners a publish finds in the list of its type, call number `c`. -/
def listenersOf (k : Call) (w : World) (c : Nat) : List Resolved :=
  (w.managers.listenerManager.listenerMetas.getD k.msg.type).map fun m => ⟨m, c, k.scope⟩

/-- The calls of listeners, with the event and the context. -/
def events (k : Call) (c : Nat) (ls : List Resolved) : List Event := ls.map fun h => h.event k.msg (k.context c)

/-- The publish has called nothing: it has resolved the first `n` listeners, or it has failed. -/
structure Waits (w : World) (c : Nat) (k : Call) : Prop where
  log : k.log = []
  phase : k.phase = .entered ∨
    (∃ n ≤ (k.listenersOf w c).length, k.phase = .listening ((k.listenersOf w c).take n)) ∨
    ∃ e, k.phase = .done (.error e)

/-- The publish has called listeners from the beginning of `ls`: all of them, or up to one that is running or has
raised. -/
inductive Publishes (c : Nat) (ls : List Resolved) (k : Call) : Prop
  | calling (called : List Resolved) (l : Resolved) (rest : List Resolved) (hls : ls = called ++ l :: rest)
      (hp : k.phase = .publishing rest) (hlog : k.log = k.events c (called ++ [l]))
  | returned (hp : k.phase = .done (.ok none)) (hlog : k.log = k.events c ls)
  | raised (called : List Resolved) (l : Resolved) (rest : List Resolved) (e : PyErr) (hls : ls = called ++ l :: rest)
      (hp : k.phase = .done (.error e)) (hlog : k.log = k.events c (called ++ [l]))

section

variable {w w' : World} {links links' : Links} {c : Nat} {k k' : Call} {a : CallAct} {ls : List Resolved}

theorem listenersOf_length (k : Call) (w : World) (c : Nat) :
    (k.listenersOf w c).length = (w.managers.listenerManager.listenerMetas.getD k.msg.type).length :=
  List.length_map _

/-- The listener that is resolved next. -/
theorem nextListener_eq_some {n : Nat} (hn : n ≤ (k.listenersOf w c).length) {m : FuncMeta}
    (hm : k.nextListener w ((k.listenersOf w c).take n) = some m) :
    n < (k.listenersOf w c).length ∧
      (k.listenersOf w c).take n ++ [⟨m, c, k.scope⟩] = (k.listenersOf w c).take (n + 1) := by
  have hlen : ((k.listenersOf w c).take n).length = n := by
    rw [List.length_take]
    omega
  rw [nextListener, hlen] at hm
  have hget : (k.listenersOf w c)[n]? = some ⟨m, c, k.scope⟩ := by
    rw [listenersOf, List.getElem?_map, hm]
    rfl
  have hlt : n < (k.listenersOf w c).length := (List.getElem?_eq_some_iff.1 hget).1
  refine ⟨hlt, ?_⟩
  rw [List.take_add_one, hget, Option.toList_some]

/-- All listeners in the list have been resolved. -/
theorem nextListener_eq_none {n : Nat} (hn : n ≤ (k.listenersOf w c).length)
    (hm : k.nextListener w ((k.listenersOf w c).take n) = none) :
    (k.listenersOf w c).take n = k.listenersOf w c := by
  have hlen : ((k.listenersOf w c).take n).length = n := by
    rw [List.length_take]
    omega
  rw [nextListener, hlen, List.getElem?_eq_none_iff, ← k.listenersOf_length w c] at hm
  exact List.take_of_length_le hm

/-- The next listener is called, if there is one. -/
theorem publishes_publishNext {called rest : List Resolved} (hls : ls = called ++ rest)
    (hlog : k.log = k.events c called) : (k.publishNext c rest).Publishes c ls := by
  cases rest with
  | nil =>
    rw [List.append_nil] at hls
    subst hls
    exact .returned rfl hlog
  | cons l rest =>
    refine .calling called l rest hls rfl ?_
    show k.log ++ [l.event k.msg (k.context c)] = _
    rw [hlog]
    simp [events, publishNext, context]

/-- What a publish that waits has resolved. -/
theorem Waits.resolved (hk : k.Waits w c) (hp : k.phase = .listening ls) :
    ∃ n ≤ (k.listenersOf w c).length, ls = (k.listenersOf w c).take n := by
  rcases hk.phase with hp' | ⟨n, hn, hp'⟩ | ⟨e, hp'⟩
  · rw [hp'] at hp
    cases hp
  · rw [hp'] at hp
    cases hp
    exact ⟨n, hn, rfl⟩
  · rw [hp'] at hp
    cases hp

/-- A publish that waits goes on waiting, or begins to call its listeners. -/
theorem Waits.steps (hk : k.Waits w c) (hpub : k.method = .publish)
    (h : Call.Steps w links c k a w' links' k') :
    (a = .callNext ∧ k'.Publishes c (k.listenersOf w c)) ∨ (w' = w ∧ k'.Waits w c) := by
  have hlog := hk.log
  cases h with
  | unregistered hp _ => exact Or.inr ⟨rfl, hlog, Or.inr (Or.inr ⟨_, rfl⟩)⟩
  | found hp hs _ =>
    rw [hpub] at hs
    cases hs
  | listen hp _ _ => exact Or.inr ⟨rfl, hlog, Or.inr (Or.inl ⟨0, Nat.zero_le _, rfl⟩)⟩
  | resolveListener hp hm =>
    obtain ⟨n, hn, rfl⟩ := hk.resolved hp
    obtain ⟨hlt, htake⟩ := nextListener_eq_some hn hm
    exact Or.inr ⟨rfl, hlog, Or.inr (Or.inl ⟨n + 1, hlt, congrArg _ htake⟩)⟩
  | firstListener hp hm =>
    obtain ⟨n, hn, rfl⟩ := hk.resolved hp
    have hall := nextListener_eq_none hn hm
    have hfirst : k.listenersOf w c = [] ++ (k.listenersOf w c).take n := by
      rw [hall, List.nil_append]
    exact Or.inl ⟨rfl, publishes_publishNext hfirst hlog⟩
  | failListener hp _ => exact Or.inr ⟨rfl, hlog, Or.inr (Or.inr ⟨_, rfl⟩)⟩
  | resolve hp | unguarded hp _ | guarded hp _ | chain hp _ | dungling hp _ | next hp _ | answer hp _
  | nextListener hp | raise hp | fail hp =>
    rcases hk.phase with hp' | ⟨n, hn, hp'⟩ | ⟨e, hp'⟩ <;> (rw [hp'] at hp; cases hp)

/-- A publish that calls its listeners goes on with the next one. -/
theorem Publishes.steps (hk : k.Publishes c ls) (h : Call.Steps w links c k a w' links' k') :
    k'.Publishes c ls := by
  cases hk with
  | calling called l rest hls hp hlog =>
    cases h with
    | nextListener hp' =>
      rw [hp] at hp'
      cases hp'
      exact publishes_publishNext (by simp [hls]) hlog
    | fail _ => exact .raised called l rest _ hls rfl hlog
    | unregistered hp' _ | found hp' _ _ | listen hp' _ _ | resolve hp' | resolveListener hp' _ | unguarded hp' _
    | guarded hp' _ | chain hp' _ | dungling hp' _ | next hp' _ | firstListener hp' _ | answer hp' _ | raise hp'
    | failListener hp' _ =>
      rw [hp] at hp'
      cases hp'
  | returned hp _ | raised _ _ _ _ _ hp _ =>
    cases h with
    | unregistered hp' _ | found hp' _ _ | listen hp' _ _ | resolve hp' | resolveListener hp' _ | unguarded hp' _
    | guarded hp' _ | chain hp' _ | dungling hp' _ | next hp' _ | firstListener hp' _ | answer hp' _
    | nextListener hp' | raise hp' | failListener hp' _ | fail hp' =>
      rw [hp] at hp'
      cases hp'

/-- Listeners appended to the list do not disturb a publish that waits. -/
theorem Waits.mono (hk : k.Waits w c)
    (h : w.managers.listenerManager.listenerMetas.getD k.msg.type <+:
      w'.managers.listenerManager.listenerMetas.getD k.msg.type) : k.Waits w' c := by
  refine ⟨hk.log, ?_⟩
  rcases hk.phase with hp | ⟨n, hn, hp⟩ | ⟨e, hp⟩
  · exact Or.inl hp
  · have hpre : k.listenersOf w c <+: k.listenersOf w' c := h.map _
    have htake : (k.listenersOf w' c).take n = (k.listenersOf w c).take n := by
      obtain ⟨t, ht⟩ := hpre
      rw [← ht, List.take_append_of_le_length hn]
    exact Or.inr (Or.inl ⟨n, hn.trans hpre.length_le, by rw [htake, hp]⟩)
  · exact Or.inr (Or.inr ⟨e, hp⟩)

end

end Call

namespace System

section

variable {bases : Nat → Option Cls × Option Cls} {s s' : System} {J : List Entry} {c : Nat} {k : Call}

/-! ### The lists in a run -/

theorem listened_step {a : SysAct} (h : Listened bases s.world J) (hJ : Journaled bases s.world J)
    (hs : s.step a = some s') : Listened bases s'.world (J ++ s.entries a) := by
  rcases step_world hs with ⟨hw, he⟩ | ⟨b, hw, he, -⟩
  · rw [hw, he, List.append_nil]
    exact h
  · rw [hw, he]
    exact h.step hJ b

theorem listened_run {acts : List SysAct} (h : Listened bases s.world J) (hJ : Journaled bases s.world J)
    (hrun : Run.run step s acts = some s') : Listened bases s'.world (J ++ s.journal acts) :=
  keeps_run (I := fun J s => Listened bases s.world J) (P := fun _ _ => True)
    (fun _ _ _ _ hJ _ hs h => listened_step h hJ hs) hJ (Run.meets_of_forall (fun _ _ => trivial) s acts) hrun h

/-- The lists of the `Anywise`, after a run from the beginning. -/
theorem listened_of_run {acts : List SysAct} (h : Run.run step (new bases) acts = some s) :
    Listened bases s.world ((new bases).journal acts) :=
  listened_run (listened_new bases) (journaled_new bases) h

/-- The list of a type only grows. -/
theorem listeners_grow {a : SysAct} (h : Listened bases s.world J) (hJ : Journaled bases s.world J)
    (hs : s.step a = some s') (T : Cls) :
    s.world.managers.listenerManager.listenerMetas.getD T <+:
      s'.world.managers.listenerManager.listenerMetas.getD T := by
  rw [h.listeners, (listened_step h hJ hs).listeners]
  exact listenerList_prefix T J _

/-! ### One publish in a run -/

/-- Call `c`, the publish `k₀` in the beginning, waits in `s`, or it began to call its listeners at the last of `acts`
that is its `callNext`. -/
def Publishing (c : Nat) (k₀ : Call) (s₀ s : System) (acts : List SysAct) : Prop :=
  ∃ k, s.calls[c]? = some k ∧ k.method = .publish ∧ k.msg = k₀.msg ∧ k.contextArg = k₀.contextArg ∧
    k.scope = k₀.scope ∧
    (k.Waits s.world c ∨ ∃ acts₁ acts₂ u, acts = acts₁ ++ .call c .callNext :: acts₂ ∧
      Run.run step s₀ acts₁ = some u ∧ k.Publishes c (k₀.listenersOf u.world c))

theorem Publishing.step {k₀ : Call} {s₀ : System} {acts : List SysAct} {a : SysAct}
    (h : Publishing c k₀ s₀ s acts) (hrun : Run.run step s₀ acts = some s) (hl : Listened bases s.world J)
    (hJ : Journaled bases s.world J) (hs : s.step a = some s') : Publishing c k₀ s₀ s' (acts ++ [a]) := by
  obtain ⟨k, hk, hpub, hmsg, hctx, hscope, hph⟩ := h
  obtain ⟨k', hk', hcase⟩ := step_of_call hs hk
  rcases hcase with ⟨rfl, -⟩ | ⟨b, rfl, hst⟩
  · -- the call has not moved
    refine ⟨k', hk', hpub, hmsg, hctx, hscope, ?_⟩
    rcases hph with hw | ⟨acts₁, acts₂, u, rfl, hu, hp⟩
    · exact Or.inl (hw.mono (listeners_grow hl hJ hs k'.msg.type))
    · exact Or.inr ⟨acts₁, acts₂ ++ [a], u, by simp, hu, hp⟩
  · obtain ⟨hm, hmsg', hctx', hscope'⟩ := hst.args
    refine ⟨k', hk', hm.trans hpub, hmsg'.trans hmsg, hctx'.trans hctx, hscope'.trans hscope, ?_⟩
    rcases hph with hw | ⟨acts₁, acts₂, u, rfl, hu, hp⟩
    · rcases hw.steps hpub hst with ⟨rfl, hp⟩ | ⟨hworld, hw⟩
      · have hlist : k.listenersOf s.world c = k₀.listenersOf s.world c := by
          rw [Call.listenersOf, Call.listenersOf, hmsg, hscope]
        exact Or.inr ⟨acts, [], s, rfl, hrun, hlist ▸ hp⟩
      · rw [← hworld] at hw
        exact Or.inl hw
    · exact Or.inr ⟨acts₁, acts₂ ++ [.call c b], u, by simp, hu, hp.steps hst⟩

/-- A publish that has just begun waits, and calls its listeners later. -/
theorem publishing_run {s₀ : System} {acts₀ acts : List SysAct} {k₀ : Call}
    (hrun₀ : Run.run step (new bases) acts₀ = some s₀) (hk : s₀.calls[c]? = some k₀) (hpub : k₀.method = .publish)
    (hp : k₀.phase = .entered) (hrun : Run.run step s₀ acts = some s) : Publishing c k₀ s₀ s acts := by
  induction acts using List.reverseRecOn generalizing s with
  | nil =>
    cases hrun
    have hfresh := fresh_of_run hrun₀ hk hp
    exact ⟨k₀, hk, hpub, rfl, rfl, rfl, Or.inl ⟨hfresh.2, Or.inl hp⟩⟩
  | append_singleton acts a ih =>
    obtain ⟨u, hu, hs⟩ := Run.run_append.1 hrun
    have hua : Run.run step (new bases) (acts₀ ++ acts) = some u := Run.run_append.2 ⟨s₀, hrun₀, hu⟩
    obtain ⟨t, ht, hs⟩ := Run.run_cons.1 hs
    cases hs
    exact (ih hu).step hu (listened_of_run hua) (journaled_of_run hua) ht

/-! ### A publish whose listeners return -/

/-- The actions of an undisturbed publish with `n` listeners, up to the return of the first `i` of them. -/
def publishUpTo (c n i : Nat) : List SysAct :=
  .call c .lookup :: List.replicate n (.call c .resolveMeta) ++
    .call c .callNext :: List.replicate i (.call c (.answer none))

/-- The next `j` listeners are resolved, when nothing comes in between. -/
theorem resolve_run {n : Nat} (j : Nat) (hk : s.calls[c]? = some k)
    (hp : k.phase = .listening ((k.listenersOf s.world c).take n)) (hn : n + j ≤ (k.listenersOf s.world c).length) :
    ∃ s', Run.run step s (List.replicate j (.call c .resolveMeta)) = some s' ∧ s'.world = s.world ∧
      s'.calls[c]? = some { k with phase := .listening ((k.listenersOf s.world c).take (n + j)) } := by
  induction j generalizing s k n with
  | zero =>
    refine ⟨s, rfl, rfl, ?_⟩
    rw [hk, Nat.add_zero, ← hp]
  | succ j ih =>
    have hlen : ((k.listenersOf s.world c).take n).length = n := by
      rw [List.length_take]
      omega
    have hlt : n < (k.listenersOf s.world c).length := by omega
    have hlt' : n < (s.world.managers.listenerManager.listenerMetas.getD k.msg.type).length := by
      rwa [k.listenersOf_length s.world c] at hlt
    have hm : k.nextListener s.world ((k.listenersOf s.world c).take n) =
        some ((s.world.managers.listenerManager.listenerMetas.getD k.msg.type)[n]) := by
      rw [Call.nextListener, hlen]
      exact List.getElem?_eq_getElem hlt'
    obtain ⟨u, hu, hku, hwu, -⟩ := step_call hk (.resolveListener hp hm)
    have htake := (Call.nextListener_eq_some (c := c) (Nat.le_of_lt hlt) hm).2
    rw [htake] at hku
    have hlist : ({ k with phase := .listening ((k.listenersOf s.world c).take (n + 1)) } : Call).listenersOf
        u.world c = k.listenersOf s.world c := by
      rw [hwu]
      rfl
    obtain ⟨s', hrun, hw, hk'⟩ := ih (n := n + 1) hku (by rw [hlist]) (by rw [hlist]; omega)
    refine ⟨s', ?_, hw.trans hwu, ?_⟩
    · rw [List.replicate_succ]
      exact Run.run_cons.2 ⟨u, hu, hrun⟩
    · rw [hk', hlist, show n + 1 + j = n + (j + 1) by omega]

private theorem answer_run (called : List Resolved) {rest : List Resolved} (j : Nat) (hk : s.calls[c]? = some k)
    (hp : k.phase = .publishing rest) (hlog : k.log = k.events c called) (hj : j ≤ rest.length) :
    ∃ s', Run.run step s (List.replicate j (.call c (.answer none))) = some s' ∧
      s'.calls[c]? = some { k with phase := .publishing (rest.drop j), log := k.events c (called ++ rest.take j) } := by
  induction j generalizing s k called rest with
  | zero =>
    refine ⟨s, rfl, ?_⟩
    rw [List.drop_zero, List.take_zero, List.append_nil, ← hp, ← hlog]
    exact hk
  | succ j ih =>
    obtain ⟨l, rest, rfl⟩ : ∃ l rest', rest = l :: rest' := by
      cases rest with
      | nil => simp at hj
      | cons l rest => exact ⟨l, rest, rfl⟩
    obtain ⟨u, hu, hku, -, -⟩ := step_call hk (.nextListener (v := none) hp)
    have hlog' : (k.publishNext c (l :: rest)).log = (k.publishNext c (l :: rest)).events c (called ++ [l]) := by
      show k.log ++ [l.event k.msg (k.context c)] = _
      rw [hlog]
      simp [Call.events, Call.publishNext, Call.context]
    obtain ⟨s', hrun, hk'⟩ := ih (called ++ [l]) hku rfl hlog' (by simpa using hj)
    refine ⟨s', ?_, ?_⟩
    · rw [List.replicate_succ]
      exact Run.run_cons.2 ⟨u, hu, hrun⟩
    · rw [hk']
      simp [Call.events, Call.publishNext, Call.context]

/-- The first listener is called when all have been resolved. -/
private theorem first_run (hk : s.calls[c]? = some k) (hpub : k.method = .publish) (hp : k.phase = .entered)
    (hlog : k.log = []) {l : Resolved} {rest : List Resolved} (hls : k.listenersOf s.world c = l :: rest) :
    ∃ s', Run.run step s (publishUpTo c (l :: rest).length 0) = some s' ∧
      s'.calls[c]? = some { k with phase := .publishing rest, log := k.events c [l] } := by
  obtain ⟨metas, hm⟩ : ∃ metas, s.world.managers.listenerManager.listenerMetas.get? k.msg.type = some metas := by
    cases hm : s.world.managers.listenerManager.listenerMetas.get? k.msg.type with
    | none => simp [Call.listenersOf, Dict.getD, hm] at hls
    | some metas => exact ⟨metas, rfl⟩
  obtain ⟨t₁, hs₁, hk₁, hw₁, -⟩ := step_call hk (.listen hp hpub hm)
  have hlist₁ : ({ k with phase := .listening [] } : Call).listenersOf t₁.world c = l :: rest := by
    rw [hw₁, ← hls]
    rfl
  obtain ⟨t₂, hrun₂, hw₂, hk₂⟩ := resolve_run (n := 0) (l :: rest).length hk₁ (by rw [List.take_zero])
    (by rw [hlist₁, Nat.zero_add])
  rw [hlist₁, Nat.zero_add, List.take_length] at hk₂
  have hnone : ({ k with phase := .listening (l :: rest) } : Call).nextListener t₂.world (l :: rest) = none := by
    rw [Call.nextListener, List.getElem?_eq_none_iff, hw₂, ← hlist₁, Call.listenersOf_length]
  obtain ⟨t₃, hs₃, hk₃, -, -⟩ := step_call hk₂ (.firstListener rfl hnone)
  refine ⟨t₃, ?_, ?_⟩
  · exact Run.run_cons.2 ⟨t₁, hs₁, Run.run_append.2 ⟨t₂, hrun₂, Run.run_cons.2 ⟨t₃, hs₃, rfl⟩⟩⟩
  · rw [hk₃]
    simp [Call.publishNext, Call.events, Call.context, hlog]

/-- A publish whose first `i` listeners return runs the next one; when all have returned, it returns. -/
theorem publishUpTo_run (hk : s.calls[c]? = some k) (hpub : k.method = .publish) (hp : k.phase = .entered)
    (hlog : k.log = []) (hne : k.listenersOf s.world c ≠ []) {i : Nat} (hi : i ≤ (k.listenersOf s.world c).length) :
    ∃ s', Run.run step s (publishUpTo c (k.listenersOf s.world c).length i) = some s' ∧
      s'.calls[c]? = some { k with
        phase := if i < (k.listenersOf s.world c).length then
          .publishing ((k.listenersOf s.world c).drop (i + 1)) else .done (.ok none)
        log := k.events c ((k.listenersOf s.world c).take (i + 1)) } := by
  obtain ⟨l, rest, hls⟩ := List.exists_cons_of_ne_nil hne
  rw [hls] at hi ⊢
  obtain ⟨t, hrun, hkt⟩ := first_run hk hpub hp hlog hls
  have hsplit : ∀ j, publishUpTo c (l :: rest).length j =
      publishUpTo c (l :: rest).length 0 ++ List.replicate j (.call c (.answer none)) := by
    intro j
    simp [publishUpTo]
  by_cases hlt : i < (l :: rest).length
  · have hir : i ≤ rest.length := Nat.le_of_lt_succ hlt
    obtain ⟨s', hrun', hk'⟩ := answer_run [l] i hkt rfl rfl hir
    refine ⟨s', ?_, ?_⟩
    · rw [hsplit]
      exact Run.run_append.2 ⟨t, hrun, hrun'⟩
    · rw [hk', if_pos hlt]
      rfl
  · -- the last listener returns as well
    obtain rfl : i = rest.length + 1 := by
      have : i = (l :: rest).length := by omega
      rw [this, List.length_cons]
    obtain ⟨u, hrun', hku⟩ := answer_run [l] rest.length hkt rfl rfl le_rfl
    rw [List.drop_length, List.take_length] at hku
    obtain ⟨s', hs', hk', -, -⟩ := step_call hku (.nextListener (v := none) rfl)
    refine ⟨s', ?_, ?_⟩
    · rw [hsplit, List.replicate_succ']
      exact Run.run_append.2 ⟨t, hrun, Run.run_append.2 ⟨u, hrun', Run.run_cons.2 ⟨s', hs', rfl⟩⟩⟩
    · rw [hk', if_neg hlt, List.take_of_length_le (by simp)]
      rfl

/-! ### All publishes -/

/-- User code that raises ends the publish. -/
private theorem raise_ends {e : PyErr} (hk : s.calls[c]? = some k)
    (hp : (∃ ls, k.phase = .listening ls) ∨ ∃ rest, k.phase = .publishing rest)
    (hs : s.step (.call c (.raise e)) = some s') :
    s'.calls[c]? = some { k with phase := .done (.error e) } := by
  have hlt := (List.getElem?_eq_some_iff.1 hk).1
  cases steps_of_step hs with
  | call hk₀ hst =>
    rw [hk] at hk₀
    cases hk₀
    simp only [List.getElem?_set_self hlt]
    cases hst with
    | failListener _ _ => rfl
    | fail _ => rfl
    | raise hp' =>
      rcases hp with ⟨ls, hp⟩ | ⟨rest, hp⟩ <;> (rw [hp] at hp'; cases hp')
    | dungling _ hd => cases hd

/-- The listeners a publish finds are those that the specification names. -/
private theorem listenersOf_registered {acts : List SysAct} (hrun : Run.run step (new bases) acts = some s) (k : Call)
    (c : Nat) :
    (k.listenersOf s.world c).map Resolved.listener =
      registeredListeners bases k.msg.type ((new bases).journal acts) := by
  rw [Call.listenersOf, (listened_of_run hrun).listeners, List.map_map, ← listenerList_functions]
  rfl

/-- In every run: the listeners of a type are those registered and included, in order, and only includes change them.
A publish that has begun has called nothing while it resolves them; from then on it has called the listeners
registered and included by that moment, from the first one on, until one of them raises, and its exception ends it;
and if they return it calls all of them: in the run that does, ididi has resolved each listener. -/
theorem publishes_registered (bases : Nat → Option Cls × Option Cls) (acts : List SysAct) (s : System)
    (hrun : Run.run step (new bases) acts = some s) :
    (∀ T, (s.world.managers.listenerManager.listenerMetas.getD T).map FuncMeta.listener =
      registeredListeners bases T ((new bases).journal acts)) ∧
    (∀ c k, s.calls[c]? = some k → k.method = .publish → k.phase = .entered →
      (∀ acts' s', Run.run step s acts' = some s' → ∃ k', s'.calls[c]? = some k' ∧ k'.msg = k.msg ∧
        k'.contextArg = k.contextArg ∧ (k'.Waits s'.world c ∨ ∃ acts₁ acts₂, ∃ ls : List Resolved,
          acts' = acts₁ ++ .call c .callNext :: acts₂ ∧ ls.map Resolved.listener =
            registeredListeners bases k.msg.type ((new bases).journal (acts ++ acts₁)) ∧ k'.Publishes c ls)) ∧
      (registeredListeners bases k.msg.type ((new bases).journal acts) = [] →
        ∃ s', s.step (.call c .lookup) = some s' ∧ s'.calls[c]? = some k.unregistered) ∧
      (registeredListeners bases k.msg.type ((new bases).journal acts) ≠ [] →
        ∃ ls : List Resolved, ls.map Resolved.listener =
            registeredListeners bases k.msg.type ((new bases).journal acts) ∧
          ∀ i ≤ ls.length, ∃ s', Run.run step s (publishUpTo c ls.length i) = some s' ∧ s'.calls[c]? = some { k with
            phase := if i < ls.length then .publishing (ls.drop (i + 1)) else .done (.ok none)
            log := k.events c (ls.take (i + 1)) })) ∧
    (∀ c k e s', s.calls[c]? = some k → (∃ ls, k.phase = .listening ls) ∨ (∃ rest, k.phase = .publishing rest) →
      s.step (.call c (.raise e)) = some s' → s'.calls[c]? = some { k with phase := .done (.error e) }) ∧
    ∀ (a : Nat) (shared shared' : List SharedAct) (T : Cls),
      (Shared.new.run bases shared).listeners (.anywise a) T =
        ((World.new bases).run (shared.filterMap (SharedAct.worldAct a))).managers.listenerManager.listenerMetas.get? T ∧
      ((∀ r, .incl a r ∉ shared') →
        (Shared.new.run bases (shared ++ shared')).listeners (.anywise a) T =
          (Shared.new.run bases shared).listeners (.anywise a) T) := by
  have hL := listened_of_run hrun
  refine ⟨fun T => ?_, fun c k hk hpub hp => ⟨fun acts' s' hrun' => ?_, fun hnone => ?_, fun hne => ?_⟩,
    fun c k e s' hk hp hs => raise_ends hk hp hs, fun a shared shared' T => ⟨?_, fun hno => ?_⟩⟩
  · rw [hL.listeners, listenerList_functions]
  · obtain ⟨k', hk', -, hmsg, hctx, -, hph⟩ := publishing_run hrun hk hpub hp hrun'
    refine ⟨k', hk', hmsg, hctx, ?_⟩
    rcases hph with hw | ⟨acts₁, acts₂, u, rfl, hu, hpubs⟩
    · exact Or.inl hw
    · have hrunu : Run.run step (new bases) (acts ++ acts₁) = some u := Run.run_append.2 ⟨s, hrun, hu⟩
      exact Or.inr ⟨acts₁, acts₂, _, rfl, listenersOf_registered hrunu k c, hpubs⟩
  · have hnil : s.world.managers.listenerManager.listenerMetas.get? k.msg.type = none := by
      rw [hL.listenersFilled.get?_eq_none, hL.listeners]
      exact listenerList_eq_nil.2 hnone
    obtain ⟨s', hs', hk', -, -⟩ := step_call hk (.unregistered hp (Or.inr ⟨hpub, hnil⟩))
    exact ⟨s', hs', hk'⟩
  · have hfresh := fresh_of_run hrun hk hp
    have hreg := listenersOf_registered hrun k c
    have hls : k.listenersOf s.world c ≠ [] := by
      intro hnil
      rw [hnil, List.map_nil] at hreg
      exact hne hreg.symm
    exact ⟨k.listenersOf s.world c, hreg, fun i hi => publishUpTo_run hk hpub hp hfresh.2 hls hi⟩
  · exact (Shared.shows_run bases a shared).listeners T
  · exact Shared.listeners_kept bases a shared shared' hno T

end

/-! ### Two registries with listeners -/

namespace UserEvents

/-- The event base, and the event derived from it. -/
def UserEvent : Cls := 4

def UserCreated : Cls := 5

def bases (_ : Nat) : Option Cls × Option Cls := (none, some UserEvent)

/-- An async listener of `UserEvent`. -/
def listener (id : FuncId) : Target := .func ⟨id, [⟨"event", .cls UserEvent⟩], true⟩

/-- A class with two listener methods, one of them of a union. -/
def notifier : Target :=
  .cls ⟨6, [("on_b", ⟨3, [⟨"self", .empty⟩, ⟨"event", .cls UserCreated⟩], true⟩),
    ("on_a", ⟨2, [⟨"self", .empty⟩, ⟨"event", .union [.cls UserCreated, .cls UserEvent]⟩], true⟩)], []⟩

/-- A function is registered in registry 0, which is included before and after the class is registered. -/
def setup : List SysAct :=
  [.world (.define [Cls.object]), .world (.define [UserEvent]),
    .world (.register 0 .listed (listener 1)), .world (.incl 0), .world (.register 0 .listed notifier),
    .world (.register 1 .listed (listener 4)), .world (.incl 1), .world (.incl 0)]

end UserEvents

open UserEvents in
/-- The event goes to the function, then to that of the other registry, then to the function again and to the methods
by their names. -/
theorem userCreated_published :
    ∃ s s' k', Run.run step (new UserEvents.bases)
        (UserEvents.setup ++ [.start .publish ⟨0, UserCreated⟩ none none]) = some s ∧
      Run.run step s (publishUpTo 0 5 5) = some s' ∧ s'.calls[0]? = some k' ∧ k'.phase = .done (.ok none) ∧
      k'.deliveries.map (fun d => d.1.listener.func.id) = [1, 4, 1, 2, 3] := by
  have hreg : (registeredListeners UserEvents.bases UserCreated ((new UserEvents.bases).journal
      (UserEvents.setup ++ [.start .publish ⟨0, UserCreated⟩ none none]))).map (fun l => l.func.id) =
        [1, 4, 1, 2, 3] := by
    decide +kernel
  have hsetup : (Run.run step (new UserEvents.bases) UserEvents.setup).map (fun s =>
      decide (HasInstances s.world UserCreated ∧ s.calls.length = 0)) = some true := by
    decide +kernel
  obtain ⟨s₀, hs₀, hd⟩ := Option.map_eq_some_iff.1 hsetup
  obtain ⟨hi, hlen⟩ := of_decide_eq_true hd
  have hi : HasInstances s₀.world (⟨0, UserCreated⟩ : Msg).type := hi
  obtain ⟨s, hs, hk, -, -⟩ := step_start hi .publish none none
  rw [hlen] at hk
  have hrun : Run.run step (new UserEvents.bases)
      (UserEvents.setup ++ [.start .publish ⟨0, UserCreated⟩ none none]) = some s :=
    Run.run_append.2 ⟨s₀, hs₀, Run.run_cons.2 ⟨s, hs, rfl⟩⟩
  obtain ⟨-, hcalls, -, -⟩ := publishes_registered UserEvents.bases _ s hrun
  obtain ⟨-, -, hall⟩ := hcalls 0 _ hk rfl rfl
  obtain ⟨ls, hls, hrunall⟩ := hall fun hnil => by
    have hnil' := congrArg (List.map fun l : Listener => l.func.id) hnil
    simp [begin, hreg] at hnil'
  have hids : ls.map (fun l => l.listener.func.id) = [1, 4, 1, 2, 3] := by
    rw [← hreg]
    have := congrArg (List.map fun l : Listener => l.func.id) hls
    rwa [List.map_map] at this
  have hlen5 : ls.length = 5 := by
    rw [← List.length_map (f := fun l : Resolved => l.listener.func.id), hids]
    rfl
  obtain ⟨s', hrun', hk'⟩ := hrunall 5 (by omega)
  rw [hlen5] at hrun'
  refine ⟨s, s', _, hrun, hrun', hk', ?_, ?_⟩
  · simp [hlen5]
  · rw [List.take_of_length_le (by omega), ← hids]
    simp [Call.deliveries, Call.events, Event.delivery, Resolved.event, List.filterMap_map, Function.comp_def]

end System

end Anywise
