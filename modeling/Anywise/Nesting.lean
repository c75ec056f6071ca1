import Anywise.Layers

/-!
# What a send does whatever becomes of the links

A send whose chain is linked anew goes on along the new links.  Even so it calls user code in a nested way: the post
handlers come in the reverse order of the pre handlers, whichever guards these were (`Call.Nested`), and what it has
resolved itself stays its own (`Call.Kept`).
-/

namespace Anywise

/-! ### Nested calls -/

/-- How a guard ends a send by itself: besides, it may find its next one false. -/
def abortsOrDangles (msg : Msg) (ctx : Ctx) (g : GuardObj) (r : Except PyErr Value) : Prop :=
  (guardLayers msg ctx).abort g r ∨ r = .error (.dunglingGuard g)

/-- The guards as layers of a send, whatever becomes of the links. -/
def sendLayers (msg : Msg) (ctx : Ctx) : Onion.Layers GuardObj Event (Except PyErr Value) :=
  guardLayersWith (abortsOrDangles msg ctx) msg ctx

instance : Nonempty Resolved := ⟨⟨⟨Cls.object, ⟨0, [], true⟩, true, false, [], none⟩, 0, .own 0⟩⟩

namespace Call

section

variable (msg : Msg) (ctx : Ctx)

/-- The call has done the beginning of a complete call through the guards it has called, wherever the links lead from
here. -/
def Nests (k : Call) : Prop :=
  match k.phase with
  | .before f outer => k.entered = guardsOf (f :: outer) ∧ ∀ h ahead,
      GoesOn (abortsOrDangles msg ctx) msg ctx h (k.entered ++ ahead) k.log
        (.before f.guard (outer.map Frame.guard) ahead)
  | .handling h outer => GoesOn (abortsOrDangles msg ctx) msg ctx h k.entered k.log (.core (outer.map Frame.guard))
  | .after _ outer _ | .failed _ outer _ => ∃ h, ∀ r,
      GoesOn (abortsOrDangles msg ctx) msg ctx h k.entered k.log (.out (outer.map Frame.guard) r)
  | .done r => (k.entered = [] ∧ k.log = [] ∧ ∃ e, r = .error e) ∨
      ∃ h, Onion.Runs (sendLayers msg ctx) (handlerCore h msg ctx) k.entered k.log r
  | .listening _ => False
  | .publishing _ => False
  | _ => k.entered = [] ∧ k.log = []

end

/-- Call number `c` nests, and the guards it is in have its arguments. -/
structure Nested (c : Nat) (k : Call) : Prop where
  frames : ∀ f ∈ k.phase.frames, f.command = k.msg ∧ f.context = k.context c
  nests : k.Nests k.msg (k.context c)

variable {msg : Msg} {ctx : Ctx} {w w' : World} {links links' : Links} {c : Nat} {k k' : Call} {a : CallAct}

/-- On its way out a call nests if it conforms to the guards it has called. -/
private theorem nests_of_conforms {h : Resolved} (hk : k.Conforms (abortsOrDangles msg ctx) msg ctx h k.entered)
    (hout : (∃ f o v, k.phase = .after f o v) ∨ (∃ f o e, k.phase = .failed f o e) ∨ ∃ r, k.phase = .done r) :
    k.Nests msg ctx := by
  unfold Conforms at hk
  unfold Nests
  rcases hout with ⟨f, o, v, hp⟩ | ⟨f, o, e, hp⟩ | ⟨r, hp⟩ <;> rw [hp] at hk ⊢
  · exact ⟨h, hk⟩
  · exact ⟨h, hk⟩
  · exact Or.inr ⟨h, hk⟩

private theorem Nested.leave (hk : k.Nested c) (hl : Leaves k k') (hf : ∀ f ∈ k'.phase.frames, f ∈ k.phase.frames)
    (hn : k'.Nests k.msg (k.context c)) : k'.Nested c := by
  refine ⟨fun f hf' => ?_, ?_⟩
  · rw [hl.msg, hl.context]
    exact hk.frames f (hf f hf')
  · rw [hl.msg, hl.context]
    exact hn

/-- A guard ends the send before it calls the next one. -/
private theorem Nested.aborts (hk : k.Nested c) {f : Frame} {outer : List Frame} (hp : k.phase = .before f outer)
    {r : Except PyErr Value} (hr : abortsOrDangles k.msg (k.context c) f.guard r) (h : Resolved) :
    GoesOn (abortsOrDangles k.msg (k.context c)) k.msg (k.context c) h k.entered k.log
      (.out (outer.map Frame.guard) r) := by
  have hnests := hk.nests
  unfold Nests at hnests
  rw [hp] at hnests
  obtain ⟨-, hgo⟩ := hnests
  intro tr r' hc
  cases hc with
  | out hst =>
    -- no guard and no handler is called any more
    have hgo := hgo h [] tr r' (.abort hr hst)
    rwa [List.append_nil] at hgo

/-- User code inside the guards `outer` comes to an end. -/
private theorem Nested.goesOut (hk : k.Nested c) {outer : List Frame} (hp : k.phase.RunsIn outer)
    {r : Except PyErr Value}
    (hr : ∀ f, k.phase = .before f outer → f.guard.isCustom = true ∨ f.guard.hasPre = true ∧ ∃ e, r = .error e) :
    ∃ h, GoesOn (abortsOrDangles k.msg (k.context c)) k.msg (k.context c) h k.entered k.log
      (.out (outer.map Frame.guard) r) := by
  have hnests := hk.nests
  have haborts : ∀ f, k.phase = .before f outer → ∃ h, GoesOn (abortsOrDangles k.msg (k.context c)) k.msg
      (k.context c) h k.entered k.log (.out (outer.map Frame.guard) r) := by
    intro f hf
    obtain ⟨h⟩ : Nonempty Resolved := inferInstance
    exact ⟨h, hk.aborts hf (Or.inl (hr f hf)) h⟩
  unfold Nests at hnests
  generalize hph : k.phase = p at hp hnests
  cases hp with
  | @before f _ _ => exact haborts f hph
  | handling h _ =>
    refine ⟨h, fun tr r' hc => ?_⟩
    cases hc with
    | out hst => exact hnests tr r' (.core hst)
  | after _ _ _ | failed _ _ _ =>
    obtain ⟨h, hgo⟩ := hnests
    exact ⟨h, hgo r⟩

/-- A guard finds its next one unset or false. -/
private theorem Nested.dangle (hk : k.Nested c) {f : Frame} {outer : List Frame} (hp : k.phase = .before f outer) :
    (k.raiseTo (f :: outer) (.dunglingGuard f.guard)).Nested c := by
  obtain ⟨h⟩ : Nonempty Resolved := inferInstance
  obtain ⟨hl, hf⟩ := raiseTo_leaves k (f :: outer) (.dunglingGuard f.guard)
  have hconf : (k.raiseTo (f :: outer) (.dunglingGuard f.guard)).Conforms (abortsOrDangles k.msg (k.context c)) k.msg
      (k.context c) h k.entered := by
    rw [raiseTo]
    split
    · -- a class-based guard may handle the exception
      rename_i hcustom
      exact fun r => hk.aborts hp (Or.inl (Or.inl hcustom)) h
    · exact conforms_raiseTo (hk.aborts hp (Or.inr rfl) h)
  rw [← hl.entered] at hconf
  refine hk.leave hl (fun f' hf' => ?_) (nests_of_conforms hconf hl.out)
  rw [hp]
  exact hf f' hf'

private theorem runsIn_frames {outer : List Frame} (hp : k.phase.RunsIn outer) :
    ∀ f ∈ outer, f ∈ k.phase.frames := by
  intro f hf
  generalize k.phase = p at hp ⊢
  cases hp <;> simp [Phase.frames, hf]

/-- The next guard is called, or the handler. -/
private theorem Nested.enter (hk : k.Nested c) {f : Frame} {outer : List Frame} {n : GuardObj ⊕ Resolved}
    (hp : k.phase = .before f outer) : (k.enterNext n f.command f.context (f :: outer)).Nested c := by
  have hnests := hk.nests
  have hframes := hk.frames
  unfold Nests at hnests
  rw [hp] at hnests hframes
  obtain ⟨hent, hgo⟩ := hnests
  obtain ⟨hcmd, hctx⟩ := hframes f List.mem_cons_self
  rw [hcmd, hctx]
  cases n with
  | inl g =>
    refine ⟨fun f' hf' => ?_, ?_, fun h ahead tr r hc => ?_⟩
    · rcases List.mem_cons.1 hf' with rfl | hf'
      · exact ⟨rfl, rfl⟩
      · exact hframes f' hf'
    · show k.entered ++ [g] = _
      rw [hent, guardsOf_cons _ (f :: outer)]
    · show Onion.Runs _ _ (k.entered ++ [g] ++ ahead) (k.log ++ g.preEvents k.msg (k.context c) ++ tr) r
      rw [List.append_assoc, List.append_assoc]
      exact hgo h (g :: ahead) _ r (Onion.completes_enter hc)
  | inr h =>
    refine ⟨hframes, fun tr r hc => ?_⟩
    show Onion.Runs _ _ k.entered (k.log ++ [h.event k.msg (k.context c)] ++ tr) r
    rw [List.append_assoc]
    have hgo := hgo h [] _ r (Onion.completes_core (fun _ => rfl) hc)
    rwa [List.append_nil] at hgo

/-- Every action of a send keeps it nested. -/
theorem Nested.steps (hk : k.Nested c) (hs : k.method = .send) (h : Call.Steps w links c k a w' links' k') :
    k'.Nested c := by
  have hnests := hk.nests
  unfold Nests at hnests
  cases h with
  | unregistered hp _ =>
    rw [hp] at hnests
    exact ⟨fun f hf => (by cases hf), Or.inl ⟨hnests.1, hnests.2, _, rfl⟩⟩
  | found hp _ _ | resolve hp | guarded hp _ =>
    rw [hp] at hnests
    exact ⟨fun f hf => (by cases hf), hnests⟩
  | listen _ hpub _ =>
    rw [hs] at hpub
    cases hpub
  | resolveListener hp _ | firstListener hp _ | nextListener hp | failListener hp _ =>
    rw [hp] at hnests
    exact hnests.elim
  | @unguarded h hp _ =>
    rw [hp] at hnests
    obtain ⟨hent, hlog⟩ := hnests
    refine ⟨fun f hf => (by cases hf), fun tr r hc => ?_⟩
    show Onion.Runs _ _ k.entered (k.log ++ [_] ++ tr) r
    rw [hent, hlog]
    cases hc with
    | core hst =>
      cases hst
      exact .core rfl
  | @chain h metas head rest hp _ =>
    rw [hp] at hnests
    obtain ⟨hent, hlog⟩ := hnests
    refine ⟨fun f hf => ?_, ?_, fun h ahead tr r hc => ?_⟩
    · rw [List.mem_singleton.1 hf]
      exact ⟨rfl, rfl⟩
    · show k.entered ++ [head] = _
      rw [hent]
      rfl
    · show Onion.Runs _ _ (k.entered ++ [head] ++ ahead) (k.log ++ head.preEvents k.msg (k.context c) ++ tr) r
      rw [hent, hlog]
      exact Onion.runs_of_before hc
  | dungling hp _ => exact hk.dangle hp
  | next hp _ => exact hk.enter hp
  | @answer outer v hp hc =>
    obtain ⟨h, hgo⟩ := hk.goesOut (r := .ok v) hp fun f hf => Or.inl (hc f outer hf)
    obtain ⟨hl, hf⟩ := returnTo_leaves k outer v
    have hconf := conforms_returnTo (fun f hf => hk.frames f (runsIn_frames hp f hf)) hgo
    rw [← hl.entered] at hconf
    exact hk.leave hl (fun f hf' => runsIn_frames hp f (hf f hf')) (nests_of_conforms hconf hl.out)
  | @raise outer e hp =>
    have hpre : ∀ f, k.phase = .before f outer → f.guard.hasPre = true := by
      intro f hf
      rw [hf] at hp
      cases hp
      assumption
    obtain ⟨h, hgo⟩ := hk.goesOut (r := .error e) hp fun f hf => Or.inr ⟨hpre f hf, e, rfl⟩
    obtain ⟨hl, hf⟩ := raiseTo_leaves k outer e
    have hconf := conforms_raiseTo hgo
    rw [← hl.entered] at hconf
    exact hk.leave hl (fun f hf' => runsIn_frames hp f (hf f hf')) (nests_of_conforms hconf hl.out)
  | fail hp =>
    generalize hph : k.phase = p at hp hnests
    cases hp with
    | resolving _ | chaining _ _ => exact ⟨fun f hf => (by cases hf), Or.inl ⟨hnests.1, hnests.2, _, rfl⟩⟩
    | publishing _ => exact hnests.elim

/-! ### What a call has resolved -/

/-- What a call has found out when it has not linked its chain. -/
def Ready (k : Call) : Prop :=
  match k.phase with
  | .entered => k.handler = none
  | .resolving m => k.method = .send ∧ k.handler = none ∧ m.messageType = k.msg.type
  | .resolved h => k.method = .send ∧ k.handler = some h
  | .chaining h _ => k.method = .send ∧ k.handler = some h
  | _ => True

/-- What call number `c` has resolved, whatever has become of the links. -/
structure Kept (c : Nat) (k : Call) : Prop where
  own : ∀ h, k.handler = some h → h.call = c ∧ h.scope = k.scope ∧ h.funcMeta.messageType = k.msg.type
  ready : k.Ready
  early : k.phase.Prepares → k.guards = [] ∧ k.entered = [] ∧ k.log = []

theorem kept_begin (c : Nat) (method : Method) (msg : Msg) (context scope : Option Nat) :
    (System.begin c method msg context scope).Kept c :=
  ⟨fun h hh => (by cases hh), rfl, fun _ => ⟨rfl, rfl, rfl⟩⟩

/-- A call that does not prepare any more. -/
private theorem Kept.past (hk : k.Kept c) (hh : k'.handler = k.handler) (hs : k'.scope = k.scope)
    (hm : k'.msg = k.msg) (hno : ¬ k'.phase.Prepares) : k'.Kept c := by
  refine ⟨fun h hh' => ?_, ?_, fun hp => absurd hp hno⟩
  · rw [hs, hm]
    exact hk.own h (hh ▸ hh')
  · unfold Ready
    split <;> rename_i hp <;> first | trivial | exact absurd (hp ▸ trivial) hno

private theorem Kept.leave (hk : k.Kept c) (hl : Leaves k k') : k'.Kept c :=
  hk.past hl.handler hl.scope hl.msg hl.not_prepares

theorem Kept.steps (hk : k.Kept c)
    (hm : ∀ T m, w.managers.handlerManager.handlerMetas.get? T = some m → m.messageType = T)
    (h : Call.Steps w links c k a w' links' k') : k'.Kept c := by
  have hready := hk.ready
  have hearly := hk.early
  unfold Ready at hready
  cases h with
  | unregistered _ _ => exact hk.past rfl rfl rfl id
  | found hp hs hmeta =>
    rw [hp] at hready hearly
    exact ⟨hk.own, ⟨hs, hready, hm _ _ hmeta⟩, fun _ => hearly trivial⟩
  | listen hp _ _ | resolveListener hp _ =>
    rw [hp] at hearly
    exact ⟨hk.own, trivial, fun _ => hearly trivial⟩
  | resolve hp =>
    rw [hp] at hready hearly
    obtain ⟨hs, -, hmeta⟩ := hready
    refine ⟨fun h hh => ?_, ⟨hs, rfl⟩, fun _ => hearly trivial⟩
    cases hh
    exact ⟨rfl, rfl, hmeta⟩
  | guarded hp _ =>
    rw [hp] at hready hearly
    exact ⟨hk.own, hready, fun _ => hearly trivial⟩
  | unguarded _ _ | chain _ _ => exact hk.past rfl rfl rfl id
  | @next f outer n _ _ =>
    cases n with
    | inl g | inr h => exact hk.past rfl rfl rfl id
  | @firstListener ls _ _ =>
    cases ls with
    | nil | cons _ _ => exact hk.past rfl rfl rfl id
  | @nextListener rest _ _ =>
    cases rest with
    | nil | cons _ _ => exact hk.past rfl rfl rfl id
  | dungling _ _ => exact hk.leave (raiseTo_leaves k (_ :: _) _).1
  | answer _ _ => exact hk.leave (returnTo_leaves k _ _).1
  | raise _ => exact hk.leave (raiseTo_leaves k _ _).1
  | failListener _ _ | fail _ => exact hk.past rfl rfl rfl id

/-- A call keeps the handler it has resolved and the guards it has linked. -/
theorem Kept.steps_same (hk : k.Kept c) (h : Call.Steps w links c k a w' links' k') :
    (∀ r, k.handler = some r → k'.handler = some r) ∧ (k.guards ≠ [] → k'.guards = k.guards) := by
  constructor
  · intro r hr
    rcases h.handler with hh | ⟨m, hp, -⟩
    · rw [hh, hr]
    · have hready := hk.ready
      unfold Ready at hready
      rw [hp] at hready
      rw [hready.2.1] at hr
      cases hr
  · intro hne
    rcases h.guards with hg | ha
    · exact hg
    · cases h with
      | chain hp _ =>
        have hearly := hk.early
        rw [hp] at hearly
        exact absurd (hearly trivial).1 hne
      | dungling _ hd =>
        rw [ha] at hd
        cases hd
      | _ => cases ha

end Call

end Anywise
