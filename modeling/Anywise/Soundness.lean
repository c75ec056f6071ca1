import Anywise.Calls

/-!
# The invariant of a send

A sound send knows its own handler, has called an initial part of the chain it linked, and finds the rest of the
chain, with its handler at the end, behind the link it reads next (`Call.Sound`).  Its own actions keep it sound
(`Call.Sound.steps`); so does everything else, as long as no guard is linked anew whose link the send has still to
read (`Call.Sound.other`).
-/

namespace Anywise

/-! ### What a sound send has -/

/-- The guards around the present place, the present one first. -/
def Phase.frames : Phase → List Frame
  | .before f outer => f :: outer
  | .handling _ outer => outer
  | .after f outer _ => f :: outer
  | .failed f outer _ => f :: outer
  | _ => []

/-- The guard objects of frames, the outermost first. -/
def guardsOf (frames : List Frame) : List GuardObj := frames.reverse.map Frame.guard

/-- The guards the call has linked and whose links it has not read yet. -/
def Call.unread (k : Call) : List GuardObj :=
  match k.phase with
  | .before _ outer => k.guards.filter fun x => decide (x ∉ guardsOf outer)
  | _ => []

/-- What a send has at the place where it is. -/
def Call.Placed (links : Links) (k : Call) : Prop :=
  match k.phase with
  | .entered => k.listed = [] ∧ k.guards = [] ∧ k.entered = [] ∧ k.log = []
  | .resolving m => m.messageType = k.msg.type ∧ k.listed = [] ∧ k.guards = [] ∧ k.entered = [] ∧ k.log = []
  | .resolved h => k.handler = some h ∧ k.listed = [] ∧ k.guards = [] ∧ k.entered = [] ∧ k.log = []
  | .chaining h metas => k.handler = some h ∧ k.listed = metas ∧ k.guards = [] ∧ k.entered = [] ∧ k.log = []
  | .before f outer => ∃ h rest, k.handler = some h ∧ Chain.Path links (.inl f.guard) (f.guard :: rest) h ∧
      Chain.visited k.guards = guardsOf outer ++ f.guard :: rest ∧ k.entered = guardsOf (f :: outer) ∧
      k.deliveries = []
  | .handling h outer => k.handler = some h ∧ k.entered = guardsOf outer ∧ k.entered = Chain.visited k.guards
  | .listening _ => False
  | .publishing _ => False
  | _ => True

/-- The invariant of a send, call number `c`. -/
structure Call.Sound (links : Links) (c : Nat) (k : Call) : Prop where
  own : ∀ h, k.handler = some h → h.call = c ∧ h.scope = k.scope ∧ h.funcMeta.messageType = k.msg.type
  placed : k.Placed links
  frames : ∀ f ∈ k.phase.frames, f.command = k.msg ∧ f.context = k.context c
  linked : k.guards = [] ∨ ResolveTo k.listed k.guards
  called : k.entered <+: Chain.visited k.guards
  delivered : k.deliveries = [] ∨ ∃ h, k.deliveries = [(h, k.msg)] ∧ k.handler = some h ∧
    k.entered = Chain.visited k.guards ∧ ResolveTo k.listed k.guards

namespace Call

variable {links links' : Links} {c : Nat} {k k' : Call}

@[simp]
theorem guardsOf_cons (f : Frame) (outer : List Frame) : guardsOf (f :: outer) = guardsOf outer ++ [f.guard] := by
  simp [guardsOf]

/-- On the way out a call keeps what it has, and calls post handles only. -/
structure Leaves (k k' : Call) : Prop where
  msg : k'.msg = k.msg
  contextArg : k'.contextArg = k.contextArg
  scope : k'.scope = k.scope
  method : k'.method = k.method
  handler : k'.handler = k.handler
  listed : k'.listed = k.listed
  guards : k'.guards = k.guards
  entered : k'.entered = k.entered
  out : (∃ f o v, k'.phase = .after f o v) ∨ (∃ f o e, k'.phase = .failed f o e) ∨ ∃ r, k'.phase = .done r
  deliveries : k'.deliveries = k.deliveries

theorem returnTo_leaves (k : Call) (outer : List Frame) (v : Value) :
    k.Leaves (k.returnTo outer v) ∧ ∀ f ∈ (k.returnTo outer v).phase.frames, f ∈ outer := by
  induction outer with
  | nil =>
    exact ⟨⟨rfl, rfl, rfl, rfl, rfl, rfl, rfl, rfl, Or.inr (Or.inr ⟨_, rfl⟩), rfl⟩, by
      simp [returnTo, Phase.frames]⟩
  | cons f outer ih =>
    unfold returnTo
    split
    · rename_i p _
      have hdel : (k.log ++ [Event.post f.guard p f.command f.context v]).filterMap Event.delivery =
          k.log.filterMap Event.delivery := by
        simp [Event.delivery]
      exact ⟨⟨rfl, rfl, rfl, rfl, rfl, rfl, rfl, rfl, Or.inl ⟨_, _, _, rfl⟩, hdel⟩, by simp [Phase.frames]⟩
    · exact ⟨ih.1, fun f' hf' => List.mem_cons_of_mem _ (ih.2 f' hf')⟩
    · exact ⟨⟨rfl, rfl, rfl, rfl, rfl, rfl, rfl, rfl, Or.inl ⟨_, _, _, rfl⟩, rfl⟩, by
        simp [Phase.frames]⟩

theorem raiseTo_leaves (k : Call) (outer : List Frame) (e : PyErr) :
    k.Leaves (k.raiseTo outer e) ∧ ∀ f ∈ (k.raiseTo outer e).phase.frames, f ∈ outer := by
  induction outer with
  | nil =>
    exact ⟨⟨rfl, rfl, rfl, rfl, rfl, rfl, rfl, rfl, Or.inr (Or.inr ⟨_, rfl⟩), rfl⟩, by
      simp [raiseTo, Phase.frames]⟩
  | cons f outer ih =>
    unfold raiseTo
    split
    · exact ⟨⟨rfl, rfl, rfl, rfl, rfl, rfl, rfl, rfl, Or.inr (Or.inl ⟨_, _, _, rfl⟩), rfl⟩, by
        simp [Phase.frames]⟩
    · exact ⟨ih.1, fun f' hf' => List.mem_cons_of_mem _ (ih.2 f' hf')⟩

theorem Leaves.context (h : Leaves k k') (c : Nat) : k'.context c = k.context c := by
  unfold Call.context
  rw [h.contextArg]

/-- A sound call stays sound on its way out. -/
theorem Sound.leave (hk : k.Sound links c) (h : Leaves k k') (hf : ∀ f ∈ k'.phase.frames, f ∈ k.phase.frames) :
    k'.Sound links' c where
  own r hr := by
    rw [h.handler] at hr
    rw [h.scope, h.msg]
    exact hk.own r hr
  placed := by
    unfold Placed
    rcases h.out with ⟨f, o, v, hp⟩ | ⟨f, o, e, hp⟩ | ⟨r, hp⟩ <;> rw [hp] <;> trivial
  frames f hf' := by
    rw [h.msg, h.context]
    exact hk.frames f (hf f hf')
  linked := by
    rw [h.guards, h.listed]
    exact hk.linked
  called := by
    rw [h.entered, h.guards]
    exact hk.called
  delivered := by
    rw [h.deliveries, h.handler, h.msg, h.entered, h.guards, h.listed]
    exact hk.delivered

theorem deliveries_nil (h : k.log = []) : k.deliveries = [] := by
  rw [deliveries, h, List.filterMap_nil]

theorem filterMap_preEvents (g : GuardObj) (m : Msg) (x : Ctx) : (g.preEvents m x).filterMap Event.delivery = [] := by
  unfold GuardObj.preEvents
  split <;> simp [Event.delivery]

/-- The call of a handler is a delivery, the call of a guard is none. -/
theorem deliveries_handler (k : Call) (h : Resolved) (m : Msg) (x : Ctx) (outer : List Frame) :
    (k.enterNext (.inr h) m x outer).deliveries = k.deliveries ++ [(h, m)] := by
  simp [enterNext, deliveries, Resolved.event, Event.delivery]

theorem deliveries_guard (k : Call) (g : GuardObj) (m : Msg) (x : Ctx) (outer : List Frame) :
    (k.enterNext (.inl g) m x outer).deliveries = k.deliveries := by
  simp [enterNext, deliveries, filterMap_preEvents]

/-- Entering the next guard, or the handler. -/
theorem Sound.enter {f : Frame} {outer : List Frame} {n : GuardObj ⊕ Resolved} (hk : k.Sound links c)
    (hp : k.phase = .before f outer) (hn : links f.guard = some n) :
    (k.enterNext n f.command f.context (f :: outer)).Sound links c := by
  have hplaced := hk.placed
  unfold Placed at hplaced
  rw [hp] at hplaced
  obtain ⟨h, rest, hh, hpath, hvis, hent, hlog⟩ := hplaced
  have hframes := hk.frames
  rw [hp] at hframes
  obtain ⟨hcmd, hctx⟩ := hframes f List.mem_cons_self
  cases hpath with
  | step hx hpath =>
    rw [hn, Option.some.injEq] at hx
    subst hx
    -- the link just read is the first step of the path that the invariant keeps
    cases hpath with
    | stop =>
      -- the chain ends: the handler
      have hev : k.entered = Chain.visited k.guards := by rw [hent, hvis, guardsOf_cons]
      have hne : k.guards ≠ [] := by
        intro hnil
        rw [hnil] at hvis
        cases (List.append_eq_nil_iff.1 hvis.symm).2
      refine ⟨hk.own, ⟨hh, hent, hev⟩, hframes, hk.linked, hk.called, Or.inr ⟨h, ?_, hh, hev, ?_⟩⟩
      · rw [deliveries_handler, hlog, hcmd]
        rfl
      · exact hk.linked.resolve_left hne
    | @step g s rest _ hg hpath =>
      have hno : (k.enterNext (.inl g) f.command f.context (f :: outer)).deliveries = [] := by
        rw [deliveries_guard, hlog]
      refine ⟨hk.own, ⟨h, rest, hh, .step hg hpath, ?_, ?_, hno⟩, ?_, hk.linked, ?_, Or.inl hno⟩
      · simp [enterNext, hvis]
      · simp [enterNext, hent]
      · intro f' hf'
        rcases List.mem_cons.1 hf' with rfl | hf'
        · exact ⟨hcmd, hctx⟩
        · exact hframes f' hf'
      · show k.entered ++ [g] <+: Chain.visited k.guards
        rw [hent, hvis, guardsOf_cons]
        exact ⟨rest, by simp⟩

/-- Calling the head of the chain just linked. -/
theorem Sound.chain {h : Resolved} {metas : List GuardMeta} {head : GuardObj} {rest : List GuardObj}
    (hk : k.Sound links c) (hp : k.phase = .chaining h metas) (hr : ResolveTo metas (head :: rest)) :
    ({ k with guards := head :: rest }.enterNext (.inl head) k.msg (k.context c) []).Sound
      (Chain.linkFrom links head rest h) c := by
  have hplaced := hk.placed
  unfold Placed at hplaced
  rw [hp] at hplaced
  obtain ⟨hh, hl, -, hent, hlog⟩ := hplaced
  have hpath := Chain.path_linkFrom links head rest h
  obtain ⟨tail, htail⟩ := Chain.visited_cons head rest
  have hno : ({ k with guards := head :: rest }.enterNext (.inl head) k.msg (k.context c) []).deliveries = [] := by
    rw [deliveries_guard, deliveries, hlog, List.filterMap_nil]
  refine ⟨hk.own, ⟨h, tail, hh, htail ▸ hpath, ?_, ?_, hno⟩, ?_, Or.inr (hl ▸ hr), ?_, Or.inl hno⟩
  · simpa [enterNext, guardsOf] using htail
  · simp [enterNext, guardsOf, hent]
  · intro f hf
    obtain rfl := List.mem_singleton.1 hf
    exact ⟨rfl, rfl⟩
  · show k.entered ++ [head] <+: Chain.visited (head :: rest)
    rw [hent, htail]
    exact ⟨tail, rfl⟩

/-- An action of the call itself keeps it sound. -/
theorem Sound.steps {w w' : World} {a : CallAct} (hk : k.Sound links c) (hs : k.method = .send)
    (hm : ∀ T m, w.managers.handlerManager.handlerMetas.get? T = some m → m.messageType = T)
    (h : Call.Steps w links c k a w' links' k') : k'.Sound links' c := by
  have hplaced := hk.placed
  unfold Placed at hplaced
  cases h with
  | unregistered hp _ =>
    exact hk.leave ⟨rfl, rfl, rfl, rfl, rfl, rfl, rfl, rfl, Or.inr (Or.inr ⟨_, rfl⟩), rfl⟩
      (by simp [unregistered, Phase.frames])
  | found hp _ hmeta =>
    rw [hp] at hplaced
    exact ⟨hk.own, ⟨hm _ _ hmeta, hplaced⟩, by simp [Phase.frames], hk.linked, hk.called, hk.delivered⟩
  | listen _ hpub _ =>
    rw [hs] at hpub
    cases hpub
  | @resolve m hp =>
    rw [hp] at hplaced
    obtain ⟨ht, hls, hg, he, hl⟩ := hplaced
    refine ⟨?_, ⟨rfl, hls, hg, he, hl⟩, by simp [Phase.frames], hk.linked, hk.called, Or.inl ?_⟩
    · rintro r hr
      cases hr
      exact ⟨rfl, rfl, ht⟩
    · exact deliveries_nil hl
  | resolveListener hp _ =>
    rw [hp] at hplaced
    exact hplaced.elim
  | @unguarded r hp _ =>
    rw [hp] at hplaced
    obtain ⟨hh, hls, hg, he, hl⟩ := hplaced
    have hev : k.entered = Chain.visited k.guards := by rw [he, hg]; rfl
    refine ⟨hk.own, ⟨hh, by simp [enterNext, he, guardsOf], hev⟩, by simp [enterNext, Phase.frames], hk.linked,
      hk.called, Or.inr ⟨r, ?_, hh, hev, ?_⟩⟩
    · rw [deliveries_handler, deliveries_nil hl]
      rfl
    · show ResolveTo k.listed k.guards
      rw [hls, hg]
      exact .nil
  | guarded hp _ =>
    rw [hp] at hplaced
    obtain ⟨hh, -, hg, he, hl⟩ := hplaced
    exact ⟨hk.own, ⟨hh, rfl, hg, he, hl⟩, by simp [Phase.frames], Or.inl hg, hk.called, Or.inl (deliveries_nil hl)⟩
  | chain hp hr => exact hk.chain hp hr
  | dungling hp _ =>
    obtain ⟨hl, hf⟩ := raiseTo_leaves k (_ :: _) _
    exact hk.leave hl fun f' hf' => hp ▸ hf f' hf'
  | next hp hn => exact hk.enter hp hn
  | firstListener hp _ =>
    rw [hp] at hplaced
    exact hplaced.elim
  | answer hp _ =>
    obtain ⟨hl, hf⟩ := returnTo_leaves k _ _
    refine hk.leave hl fun f' hf' => ?_
    have := hf f' hf'
    generalize k.phase = p at hp ⊢
    cases hp <;> simp [Phase.frames, this]
  | nextListener hp =>
    rw [hp] at hplaced
    exact hplaced.elim
  | raise hp =>
    obtain ⟨hl, hf⟩ := raiseTo_leaves k _ _
    refine hk.leave hl fun f' hf' => ?_
    have := hf f' hf'
    generalize k.phase = p at hp ⊢
    cases hp <;> simp [Phase.frames, this]
  | failListener hp _ =>
    rw [hp] at hplaced
    exact hplaced.elim
  | fail _ =>
    exact hk.leave ⟨rfl, rfl, rfl, rfl, rfl, rfl, rfl, rfl, Or.inr (Or.inr ⟨_, rfl⟩), rfl⟩
      (by simp [Phase.frames])

/-- An action elsewhere keeps a call sound if it does not write what the call still has to read. -/
theorem Sound.other (hk : k.Sound links c) (hl : ∀ x ∈ k.unread, links' x = links x) : k.Sound links' c := by
  refine ⟨hk.own, ?_, hk.frames, hk.linked, hk.called, hk.delivered⟩
  -- only a guard that has not called the next one depends on the links
  have hplaced := hk.placed
  unfold Placed at hplaced ⊢
  split <;> rename_i hp <;> simp only [hp] at hplaced
  all_goals try exact hplaced
  obtain ⟨h, rest, hh, hpath, hvis, hent, hlog⟩ := hplaced
  -- the path ahead meets linked guards whose links are unread, as the walk meets no guard twice
  refine ⟨h, rest, hh, hpath.congr fun x hx => hl x ?_, hvis, hent, hlog⟩
  have hmem : x ∈ k.guards := Chain.visited_subset (hvis ▸ List.mem_append_right _ hx)
  have hnd := Chain.visited_nodup k.guards
  rw [hvis] at hnd
  have hread : x ∉ guardsOf _ := fun hr => (List.nodup_append.1 hnd).2.2 x hr x hx rfl
  simp [unread, hp, hmem, hread]

theorem sound_begin (links : Links) (c : Nat) (msg : Msg) (context scope : Option Nat) :
    (System.begin c .send msg context scope).Sound links c where
  own := by simp [System.begin]
  placed := ⟨rfl, rfl, rfl, rfl⟩
  frames := by simp [System.begin, Phase.frames]
  linked := Or.inl rfl
  called := List.nil_prefix
  delivered := Or.inl rfl

/-! ### What the invariant does not say -/

@[simp]
theorem enterNext_same (k : Call) (n : GuardObj ⊕ Resolved) (m : Msg) (x : Ctx) (o : List Frame) :
    (k.enterNext n m x o).method = k.method ∧ (k.enterNext n m x o).msg = k.msg ∧
      (k.enterNext n m x o).contextArg = k.contextArg ∧ (k.enterNext n m x o).scope = k.scope ∧
      (k.enterNext n m x o).listed = k.listed ∧ (k.enterNext n m x o).guards = k.guards := by
  cases n <;> exact ⟨rfl, rfl, rfl, rfl, rfl, rfl⟩

@[simp]
theorem publishNext_same (k : Call) (c : Nat) (ls : List Resolved) :
    (k.publishNext c ls).method = k.method ∧ (k.publishNext c ls).msg = k.msg ∧
      (k.publishNext c ls).contextArg = k.contextArg ∧ (k.publishNext c ls).scope = k.scope ∧
      (k.publishNext c ls).listed = k.listed ∧ (k.publishNext c ls).guards = k.guards := by
  cases ls <;> exact ⟨rfl, rfl, rfl, rfl, rfl, rfl⟩

theorem Leaves.same (h : Leaves k k') :
    k'.method = k.method ∧ k'.msg = k.msg ∧ k'.contextArg = k.contextArg ∧ k'.scope = k.scope ∧
      k'.listed = k.listed ∧ k'.guards = k.guards :=
  ⟨h.method, h.msg, h.contextArg, h.scope, h.listed, h.guards⟩

/-- A call keeps its arguments. -/
theorem Steps.args {w w' : World} {a : CallAct} (h : Call.Steps w links c k a w' links' k') :
    k'.method = k.method ∧ k'.msg = k.msg ∧ k'.contextArg = k.contextArg ∧ k'.scope = k.scope := by
  cases h with
  | unguarded _ _ => simp
  | chain _ _ => simp
  | next _ _ => simp
  | firstListener _ _ => simp
  | nextListener _ => simp
  | dungling _ _ =>
    obtain ⟨h1, h2, h3, h4, -⟩ := (raiseTo_leaves k (_ :: _) _).1.same
    exact ⟨h1, h2, h3, h4⟩
  | answer _ _ =>
    obtain ⟨h1, h2, h3, h4, -⟩ := (returnTo_leaves k _ _).1.same
    exact ⟨h1, h2, h3, h4⟩
  | raise _ =>
    obtain ⟨h1, h2, h3, h4, -⟩ := (raiseTo_leaves k _ _).1.same
    exact ⟨h1, h2, h3, h4⟩
  | _ => exact ⟨rfl, rfl, rfl, rfl⟩

theorem Leaves.not_prepares (h : Leaves k k') : ¬ k'.phase.Prepares := by
  rcases h.out with ⟨_, _, _, hp⟩ | ⟨_, _, _, hp⟩ | ⟨_, hp⟩ <;> rw [hp] <;> exact id

theorem enterNext_not_prepares (k : Call) (n : GuardObj ⊕ Resolved) (m : Msg) (x : Ctx) (o : List Frame) :
    ¬ (k.enterNext n m x o).phase.Prepares := by
  cases n <;> exact id

theorem publishNext_not_prepares (k : Call) (c : Nat) (ls : List Resolved) :
    ¬ (k.publishNext c ls).phase.Prepares := by
  cases ls <;> exact id

/-- How a call comes to a phase before it calls anything. -/
theorem Steps.preparing {w w' : World} {a : CallAct} (h : Call.Steps w links c k a w' links' k') {p : Phase}
    (hp : k'.phase = p) (hprep : p.Prepares) : Preparing w c k k' := by
  subst hp
  cases h with
  | unregistered _ _ => exact hprep.elim
  | found hp' _ hm => exact .found hp' hm
  | listen hp' _ hm => exact .listen hp' hm
  | resolve hp' => exact .resolve hp'
  | resolveListener hp' hm => exact .resolveListener hp' hm
  | guarded hp' _ => exact .guarded hp'
  | unguarded _ _ => exact absurd hprep (enterNext_not_prepares _ _ _ _ _)
  | chain _ _ => exact absurd hprep (enterNext_not_prepares _ _ _ _ _)
  | next _ _ => exact absurd hprep (enterNext_not_prepares _ _ _ _ _)
  | firstListener _ _ => exact absurd hprep (publishNext_not_prepares _ _ _)
  | nextListener _ => exact absurd hprep (publishNext_not_prepares _ _ _)
  | dungling _ _ => exact absurd hprep (raiseTo_leaves k (_ :: _) _).1.not_prepares
  | answer _ _ => exact absurd hprep (returnTo_leaves k _ _).1.not_prepares
  | raise _ => exact absurd hprep (raiseTo_leaves k _ _).1.not_prepares
  | failListener _ _ => exact hprep.elim
  | fail _ => exact hprep.elim

/-- No action leads back to the beginning. -/
theorem Steps.not_entered {w w' : World} {a : CallAct} (h : Call.Steps w links c k a w' links' k') :
    k'.phase ≠ .entered := by
  intro hp
  cases h.preparing hp trivial <;> cases hp

/-- The guards of a call are those it links. -/
theorem Steps.guards {w w' : World} {a : CallAct} (h : Call.Steps w links c k a w' links' k') :
    k'.guards = k.guards ∨ a = .chain k'.guards := by
  cases h with
  | unguarded _ _ => simp
  | chain _ _ => exact Or.inr rfl
  | next _ _ => simp
  | firstListener _ _ => simp
  | nextListener _ => simp
  | dungling _ _ => exact Or.inl (raiseTo_leaves k (_ :: _) _).1.guards
  | answer _ _ => exact Or.inl (returnTo_leaves k _ _).1.guards
  | raise _ => exact Or.inl (raiseTo_leaves k _ _).1.guards
  | _ => exact Or.inl rfl

/-- The handler of a call is the one it resolves. -/
theorem Steps.handler {w w' : World} {a : CallAct} (h : Call.Steps w links c k a w' links' k') :
    k'.handler = k.handler ∨ ∃ m, k.phase = .resolving m ∧ k'.handler = some ⟨m, c, k.scope⟩ := by
  cases h with
  | resolve hp => exact Or.inr ⟨_, hp, rfl⟩
  | @next f outer n _ _ => cases n <;> exact Or.inl rfl
  | @firstListener ls _ _ => cases ls <;> exact Or.inl rfl
  | @nextListener rest _ _ => cases rest <;> exact Or.inl rfl
  | dungling _ _ => exact Or.inl (raiseTo_leaves k (_ :: _) _).1.handler
  | answer _ _ => exact Or.inl (returnTo_leaves k _ _).1.handler
  | raise _ => exact Or.inl (raiseTo_leaves k _ _).1.handler
  | _ => exact Or.inl rfl

/-- A send that steps reads the guard list of its type, or has read it before when it delivers. -/
theorem Sound.steps_listed {w w' : World} {a : CallAct} (hk : k.Sound links c) (hs : k.method = .send)
    (h : Call.Steps w links c k a w' links' k') :
    k'.listed = w.commandGuards k.msg.type ∨
      k'.listed = k.listed ∧ (k'.deliveries ≠ [] → k.listed ≠ [] ∨ k.deliveries ≠ []) := by
  have hplaced := hk.placed
  unfold Placed at hplaced
  have hleave : ∀ {k'}, Leaves k k' →
      k'.listed = k.listed ∧ (k'.deliveries ≠ [] → k.listed ≠ [] ∨ k.deliveries ≠ []) :=
    fun hl => ⟨hl.listed, fun hd => Or.inr (hl.deliveries ▸ hd)⟩
  cases h with
  | listen _ hpub _ =>
    rw [hs] at hpub
    cases hpub
  | resolveListener hp _ | firstListener hp _ | nextListener hp =>
    rw [hp] at hplaced
    exact hplaced.elim
  | unguarded hp hg =>
    rw [hp] at hplaced
    exact Or.inl (hplaced.2.1.trans hg.symm)
  | guarded _ _ => exact Or.inl rfl
  | chain hp hr =>
    rw [hp] at hplaced
    obtain ⟨-, rfl, -⟩ := hplaced
    refine Or.inr ⟨rfl, fun _ => Or.inl fun hnil => ?_⟩
    rw [hnil] at hr
    cases hr
  | next hp _ =>
    rw [hp] at hplaced
    obtain ⟨r, rest, -, -, hvis, -⟩ := hplaced
    refine Or.inr ⟨by simp, fun _ => Or.inl fun hnil => ?_⟩
    rcases hk.linked with hg | hr
    · rw [hg] at hvis
      cases (List.append_eq_nil_iff.1 hvis.symm).2
    · rw [hnil] at hr
      have hg := List.forall₂_nil_left_iff.1 hr
      rw [hg] at hvis
      cases (List.append_eq_nil_iff.1 hvis.symm).2
  | dungling _ _ => exact Or.inr (hleave (raiseTo_leaves k (_ :: _) _).1)
  | answer _ _ => exact Or.inr (hleave (returnTo_leaves k _ _).1)
  | raise _ => exact Or.inr (hleave (raiseTo_leaves k _ _).1)
  | _ => exact Or.inr ⟨rfl, fun hd => Or.inr hd⟩

end Call

namespace System

/-- A call that has not looked its message up is as it began. -/
theorem begun_of_run {bases : Nat → Option Cls × Option Cls} {acts : List SysAct} {s : System}
    (hrun : Run.run step (new bases) acts = some s) {c : Nat} {k : Call} (hk : s.calls[c]? = some k)
    (hp : k.phase = .entered) : ∃ method msg context scope, k = begin c method msg context scope := by
  have hinv : ∀ (c : Nat) (k : Call), s.calls[c]? = some k → k.phase = .entered →
      ∃ method msg context scope, k = begin c method msg context scope := by
    refine Run.preserved
      (I := fun s : System => ∀ (c : Nat) (k : Call), s.calls[c]? = some k → k.phase = .entered →
        ∃ method msg context scope, k = begin c method msg context scope)
      (fun s a s' hs hstep c k hk hp => ?_) (by simp [new]) hrun
    rcases step_calls hstep hk with ⟨hk, -⟩ | ⟨_, _, _, _, -, -, -, hk, -⟩ | ⟨b, k₀, -, -, hst⟩
    · exact hs c k hk hp
    · exact ⟨_, _, _, _, hk⟩
    · exact absurd hp hst.not_entered
  exact hinv c k hk hp

/-- So it has called nothing. -/
theorem fresh_of_run {bases : Nat → Option Cls × Option Cls} {acts : List SysAct} {s : System}
    (hrun : Run.run step (new bases) acts = some s) {c : Nat} {k : Call} (hk : s.calls[c]? = some k)
    (hp : k.phase = .entered) : k.entered = [] ∧ k.log = [] := by
  obtain ⟨_, _, _, _, rfl⟩ := begun_of_run hrun hk hp
  exact ⟨rfl, rfl⟩

/-- Guards that pass on follow the links up to the handler. -/
theorem pass_along {s : System} {c : Nat} {k : Call} {f : Frame} {outer : List Frame} {rest : List GuardObj}
    {h : Resolved} (hk : s.calls[c]? = some k) (hp : k.phase = .before f outer)
    (hpath : Chain.Path s.links (.inl f.guard) (f.guard :: rest) h) :
    ∃ s' k' outer', Run.run step s (List.replicate (rest.length + 1) (.call c .callNext)) = some s' ∧
      s'.calls[c]? = some k' ∧ k'.phase = .handling h outer' ∧ k'.scope = k.scope ∧
      k'.entered = k.entered ++ rest ∧ k'.deliveries = k.deliveries ++ [(h, f.command)] := by
  induction rest generalizing s k f outer with
  | nil =>
    cases hpath with
    | step hx hpath =>
      cases hpath
      obtain ⟨s', hs, hk', -⟩ := step_call hk (.next hp hx)
      refine ⟨s', _, f :: outer, Run.run_cons.2 ⟨s', hs, rfl⟩, hk', rfl, rfl, by simp [Call.enterNext], ?_⟩
      exact Call.deliveries_handler k h f.command f.context (f :: outer)
  | cons g rest ih =>
    cases hpath with
    | step hx hpath =>
      cases hpath with
      | step hg hpath =>
        obtain ⟨t, hs, hk', -, hl⟩ := step_call hk (.next hp hx)
        obtain ⟨s', k', outer', hrun, hc, hph, hsc, hent, hdel⟩ := ih hk' rfl (hl ▸ .step hg hpath)
        refine ⟨s', k', outer', Run.run_cons.2 ⟨t, hs, hrun⟩, hc, hph, hsc, ?_, ?_⟩
        · simpa [Call.enterNext] using hent
        · rw [hdel, Call.deliveries_guard]

/-- A sound send in one of its guards reaches its own handler, if its guards pass on. -/
theorem reaches_handler {s : System} {c : Nat} {k : Call} {f : Frame} {outer : List Frame}
    (hk : s.calls[c]? = some k) (hsound : k.Sound s.links c) (hp : k.phase = .before f outer) :
    ∃ n s' k' h outer', Run.run step s (List.replicate n (.call c .callNext)) = some s' ∧
      s'.calls[c]? = some k' ∧ k'.phase = .handling h outer' ∧ k.handler = some h ∧
      k'.deliveries = [(h, k.msg)] ∧ k'.entered = Chain.visited k.guards := by
  have hplaced := hsound.placed
  unfold Call.Placed at hplaced
  rw [hp] at hplaced
  obtain ⟨h, rest, hh, hpath, hvis, hent, hno⟩ := hplaced
  obtain ⟨hcmd, -⟩ := hsound.frames f (by rw [hp]; exact List.mem_cons_self)
  obtain ⟨s', k', outer', hrun, hk', hp', -, hent', hdel⟩ := pass_along hk hp hpath
  refine ⟨_, s', k', h, outer', hrun, hk', hp', hh, ?_, ?_⟩
  · rw [hdel, hno, hcmd, List.nil_append]
  · rw [hent', hent, hvis, Call.guardsOf_cons, List.append_assoc, List.singleton_append]

end System

end Anywise
