import Anywise.Lib.Onion
import Anywise.Delivery
import Anywise.Numbering

/-!
# A send goes through its guards

The guards of a type, with the handler inside, form layers: the pre handlers run from the outside in, then the
handler, then the post handlers from the inside out.  A send goes through exactly these layers, whatever the other
calls do, unless one of them links a guard of the send anew before the send has read its link
(`sends_through_layers`).  A `pre_handle` that sends a command itself can do this (`nested_send_diverts`); the
handler and a `post_handle` cannot, as all links have been read by then.
-/

namespace Anywise

/-! ### Guards as layers -/

/-- The guards as layers: `pre_handle` comes first, and raising ends the call there; `post_handle` gets the response
of the layer inside, and returns another one or raises; an exception passes through.  A class-based guard may do
anything in place of this. -/
def guardLayers (msg : Msg) (ctx : Ctx) : Onion.Layers GuardObj Event (Except PyErr Value) where
  enter g := g.preEvents msg ctx
  abort g r := g.isCustom = true ∨ g.hasPre = true ∧ ∃ e, r = .error e
  leave g r ev r' :=
    match g, r with
    | .guard _ _ _ _ (some p), .ok v => ev = [.post g p msg ctx v]
    | .guard .., r => ev = [] ∧ r' = r
    | .custom _ _, _ => ev = []

/-- The same layers when a guard may end the call as `abort` says. -/
def guardLayersWith (abort : GuardObj → Except PyErr Value → Prop) (msg : Msg) (ctx : Ctx) :
    Onion.Layers GuardObj Event (Except PyErr Value) :=
  { guardLayers msg ctx with abort := abort }

/-- The handler inside: it is called once, and returns or raises. -/
def handlerCore (h : Resolved) (msg : Msg) (ctx : Ctx) (tr : List Event) (_ : Except PyErr Value) : Prop :=
  tr = [h.event msg ctx]

section Conforms

variable (abort : GuardObj → Except PyErr Value → Prop) (msg : Msg) (ctx : Ctx) (h : Resolved) (L : List GuardObj)

/-- A call that has done `log` and goes on from the position makes one of the complete calls through `L`. -/
def GoesOn (log : List Event) (p : Onion.Position GuardObj (Except PyErr Value)) : Prop :=
  ∀ tr r, Onion.Completes (guardLayersWith abort msg ctx) (handlerCore h msg ctx) p tr r →
    Onion.Runs (guardLayersWith abort msg ctx) (handlerCore h msg ctx) L (log ++ tr) r

/-- The call has done the beginning of a complete call through `L`, up to where it stands. -/
def Call.Conforms (k : Call) : Prop :=
  match k.phase with
  | .chaining _ _ => k.log = [] ∧ L ≠ []
  | .before f outer => ∃ ahead, L = guardsOf outer ++ f.guard :: ahead ∧
      GoesOn abort msg ctx h L k.log (.before f.guard (outer.map Frame.guard) ahead)
  | .handling _ outer => GoesOn abort msg ctx h L k.log (.core (outer.map Frame.guard))
  | .after _ outer _ => ∀ r, GoesOn abort msg ctx h L k.log (.out (outer.map Frame.guard) r)
  | .failed _ outer _ => ∀ r, GoesOn abort msg ctx h L k.log (.out (outer.map Frame.guard) r)
  | .done r => Onion.Runs (guardLayersWith abort msg ctx) (handlerCore h msg ctx) L k.log r
  | _ => False

end Conforms

namespace Call

variable {abort : GuardObj → Except PyErr Value → Prop} {msg : Msg} {ctx : Ctx} {h : Resolved} {L : List GuardObj}
  {k : Call} {outer : List Frame}

/-- A response goes out through the layers. -/
theorem conforms_returnTo {v : Value} (hf : ∀ f ∈ outer, f.command = msg ∧ f.context = ctx)
    (hg : GoesOn abort msg ctx h L k.log (.out (outer.map Frame.guard) (.ok v))) :
    (k.returnTo outer v).Conforms abort msg ctx h L := by
  induction outer with
  | nil => simpa [returnTo, Conforms] using hg [] (.ok v) (.out (.nil _))
  | cons f outer ih =>
    obtain ⟨hmsg, hctx⟩ := hf f List.mem_cons_self
    unfold returnTo
    split
    · rename_i p hguard
      intro r tr r' hc
      cases hc with
      | out hst =>
        rw [List.append_assoc]
        refine hg _ r' (.out (.cons ?_ hst))
        rw [hguard, hmsg, hctx]
        exact rfl
    · rename_i hguard
      have hleave : (guardLayersWith abort msg ctx).leave f.guard (.ok v) [] (.ok v) := by
        rw [hguard]
        exact ⟨rfl, rfl⟩
      refine ih (fun f' hf' => hf f' (List.mem_cons_of_mem _ hf')) fun tr r' hc => ?_
      cases hc with
      | out hst => exact hg _ r' (.out (.cons hleave hst))
    · rename_i hguard
      intro r tr r' hc
      have hleave : (guardLayersWith abort msg ctx).leave f.guard (.ok v) [] r := by
        rw [hguard]
        exact rfl
      cases hc with
      | out hst => exact hg _ r' (.out (.cons hleave hst))

/-- An exception goes out through the layers. -/
theorem conforms_raiseTo {e : PyErr}
    (hg : GoesOn abort msg ctx h L k.log (.out (outer.map Frame.guard) (.error e))) :
    (k.raiseTo outer e).Conforms abort msg ctx h L := by
  induction outer with
  | nil => simpa [raiseTo, Conforms] using hg [] (.error e) (.out (.nil _))
  | cons f outer ih =>
    unfold raiseTo
    split
    · rename_i hcustom
      intro r tr r' hc
      have hleave : (guardLayersWith abort msg ctx).leave f.guard (.error e) [] r := by
        cases hguard : f.guard with
        | guard _ _ _ _ _ => simp [hguard, GuardObj.isCustom] at hcustom
        | custom _ _ => exact rfl
      cases hc with
      | out hst => exact hg _ r' (.out (.cons hleave hst))
    · rename_i hcustom
      have hleave : (guardLayersWith abort msg ctx).leave f.guard (.error e) [] (.error e) := by
        cases hguard : f.guard with
        | guard _ _ _ _ post => cases post <;> exact ⟨rfl, rfl⟩
        | custom _ _ => simp [hguard, GuardObj.isCustom] at hcustom
      refine ih fun tr r' hc => ?_
      cases hc with
      | out hst => exact hg _ r' (.out (.cons hleave hst))

theorem resolveTo_iff {metas : List GuardMeta} (hL : metas.map GuardMeta.guard = L.map GuardRef.obj)
    {objs : List GuardObj} : ResolveTo metas objs ↔ objs = L := by
  have hsame : ResolveTo metas objs ↔ List.Forall₂ GuardRef.ResolvesTo (metas.map GuardMeta.guard) objs :=
    List.forall₂_map_left_iff.symm
  rw [hsame, hL, List.forall₂_map_left_iff]
  constructor
  · intro hr
    clear hL hsame
    induction hr with
    | nil => rfl
    | cons hx _ ih => rw [ih, show _ = _ from hx]
  · rintro rfl
    exact List.forall₂_same.2 fun _ _ => rfl

/-- A send that has read its guard list; `L` are the layers around its handler `h`. -/
structure Layered (links : Links) (c : Nat) (msg : Msg) (ctx : Ctx) (h : Resolved) (metas : List GuardMeta)
    (L : List GuardObj) (k : Call) : Prop where
  sound : k.Sound links c
  send : k.method = .send
  message : k.msg = msg
  context : k.context c = ctx
  handler : k.handler = some h
  listed : k.listed = metas
  conforms : k.Conforms (guardLayers msg ctx).abort msg ctx h L

section

variable {links links' : Links} {c : Nat} {metas : List GuardMeta} {k' : Call}

/-- Before a guard calls the next one, the links lead along the layers ahead to the handler. -/
theorem Layered.ahead (hk : k.Layered links c msg ctx h metas L)
    (hL : metas.map GuardMeta.guard = L.map GuardRef.obj) (hnd : L.Nodup) {f : Frame}
    (hp : k.phase = .before f outer) :
    ∃ ahead, Chain.Path links (.inl f.guard) (f.guard :: ahead) h ∧ L = guardsOf outer ++ f.guard :: ahead ∧
      GoesOn (guardLayers msg ctx).abort msg ctx h L k.log (.before f.guard (outer.map Frame.guard) ahead) := by
  have hplaced := hk.sound.placed
  have hconf := hk.conforms
  unfold Placed at hplaced
  unfold Conforms at hconf
  rw [hp] at hplaced hconf
  obtain ⟨h', rest, hh, hpath, hvis, -, -⟩ := hplaced
  obtain ⟨ahead, hahead, hgo⟩ := hconf
  rw [hk.handler, Option.some.injEq] at hh
  subst hh
  have hguards : k.guards = L := by
    rcases hk.sound.linked with hnil | hr
    · rw [hnil] at hvis
      cases (List.append_eq_nil_iff.1 hvis.symm).2
    · rw [hk.listed] at hr
      exact (resolveTo_iff hL).1 hr
  -- without repetitions the walk is the list itself
  rw [hguards, Chain.visited_of_nodup hnd, hahead] at hvis
  obtain rfl := (List.cons.inj (List.append_cancel_left hvis)).2
  exact ⟨_, hpath, hahead, hgo⟩

/-- Going on to the next guard or to the handler. -/
private theorem Layered.enter (hk : k.Layered links c msg ctx h metas L)
    (hL : metas.map GuardMeta.guard = L.map GuardRef.obj) (hnd : L.Nodup) {f : Frame} {n : GuardObj ⊕ Resolved}
    (hp : k.phase = .before f outer) (hn : links f.guard = some n) :
    (k.enterNext n f.command f.context (f :: outer)).Conforms (guardLayers msg ctx).abort msg ctx h L := by
  obtain ⟨ahead, hpath, hahead, hgo⟩ := hk.ahead hL hnd hp
  obtain ⟨hcmd, hctx⟩ := hk.sound.frames f (by simp [hp, Phase.frames])
  rw [hk.message] at hcmd
  rw [hk.context] at hctx
  cases hpath with
  | step hx hpath =>
    rw [hn, Option.some.injEq] at hx
    subst hx
    cases hpath with
    | stop =>
      intro tr r hc
      rw [hcmd, hctx]
      show Onion.Runs _ _ L (k.log ++ [h.event msg ctx] ++ tr) r
      rw [List.append_assoc]
      exact hgo _ r (Onion.completes_core (fun _ => rfl) hc)
    | @step g s rest _ hg hpath =>
      refine ⟨rest, by simp [hahead], fun tr r hc => ?_⟩
      rw [hcmd, hctx] at hc ⊢
      show Onion.Runs _ _ L (k.log ++ g.preEvents msg ctx ++ tr) r
      rw [List.append_assoc]
      exact hgo _ r (Onion.completes_enter hc)

/-- Every action of the call itself is one of a complete call through the layers. -/
theorem Layered.steps {w w' : World} {a : CallAct} (hk : k.Layered links c msg ctx h metas L)
    (hL : metas.map GuardMeta.guard = L.map GuardRef.obj) (hnd : L.Nodup) (hplain : ∀ g ∈ L, g.isCustom = false)
    (hst : Call.Steps w links c k a w' links' k') : k'.Conforms (guardLayers msg ctx).abort msg ctx h L := by
  have hconf := hk.conforms
  have hplaced := hk.sound.placed
  have hframes := hk.sound.frames
  rw [hk.message, hk.context] at hframes
  unfold Conforms at hconf
  unfold Placed at hplaced
  cases hst with
  | chain hp hr =>
    rw [hp] at hconf hplaced
    obtain ⟨hlog, -⟩ := hconf
    obtain ⟨-, hl, -⟩ := hplaced
    rw [← hl, hk.listed, resolveTo_iff hL] at hr
    subst hr
    refine ⟨_, rfl, fun tr r hc => ?_⟩
    rw [hk.message, hk.context] at hc ⊢
    show Onion.Runs _ _ _ (k.log ++ GuardObj.preEvents _ msg ctx ++ tr) r
    rw [hlog]
    exact Onion.runs_of_before hc
  | dungling hp hd =>
    obtain ⟨ahead, hpath, hahead, -⟩ := hk.ahead hL hnd hp
    cases hpath with
    | step hx hpath =>
      cases hd with
      | unset hl =>
        -- the link is set
        rw [hl] at hx
        cases hx
      | nextFalse hl hc =>
        -- the next one is a `Guard`
        rw [hl, Option.some.injEq] at hx
        subst hx
        cases hpath with
        | step _ _ =>
          rw [hplain _ (by simp [hahead])] at hc
          cases hc
  | next hp hn => exact hk.enter hL hnd hp hn
  | @answer outer v hp hc =>
    refine conforms_returnTo (fun f hf => hframes f ?_) fun tr r ho => ?_
    · generalize k.phase = p at hp ⊢
      cases hp <;> simp [Phase.frames, hf]
    · cases ho with
      | out hst =>
        generalize hph : k.phase = p at hp hconf
        cases hp with
        | @before f _ _ =>
          obtain ⟨ahead, -, hgo⟩ := hconf
          exact hgo tr r (.abort (Or.inl (hc f outer hph)) hst)
        | handling _ _ => exact hconf tr r (.core hst)
        | after f _ _ => exact hconf (.ok v) tr r (.out hst)
        | failed f _ _ => exact hconf (.ok v) tr r (.out hst)
  | @raise outer e hp =>
    refine conforms_raiseTo fun tr r ho => ?_
    cases ho with
    | out hst =>
      generalize hph : k.phase = p at hp hconf
      cases hp with
      | before _ hpre =>
        obtain ⟨ahead, -, hgo⟩ := hconf
        exact hgo tr r (.abort (Or.inr ⟨hpre, e, rfl⟩) hst)
      | handling _ _ => exact hconf tr r (.core hst)
      | after f _ _ => exact hconf (.error e) tr r (.out hst)
      | failed f _ _ => exact hconf (.error e) tr r (.out hst)
  | fail hp =>
    generalize hph : k.phase = p at hp hconf hplaced
    cases hp with
    | chaining r hc =>
      -- all guards are objects: none is resolved
      obtain ⟨-, hl, -⟩ := hplaced
      obtain ⟨m, hm, hcls⟩ := List.any_eq_true.1 hc
      have hmem : m.guard ∈ L.map GuardRef.obj := by
        rw [← hL, ← hk.listed, hl]
        exact List.mem_map_of_mem hm
      obtain ⟨g, -, hg⟩ := List.mem_map.1 hmem
      rw [← hg] at hcls
      cases hcls
    | resolving _ | publishing _ => exact hconf.elim
  | _ =>
    -- before the guard list is read, or in `publish`
    rw [‹k.phase = _›] at hconf
    exact hconf.elim

/-- The send is at its end, or it can go on. -/
theorem Layered.progress (hk : k.Layered links c msg ctx h metas L)
    (hL : metas.map GuardMeta.guard = L.map GuardRef.obj) (hnd : L.Nodup) (w : World) :
    (∃ r, k.phase = .done r) ∨ ∃ a w' links' k', Call.Steps w links c k a w' links' k' := by
  have hconf := hk.conforms
  have hplaced := hk.sound.placed
  unfold Conforms at hconf
  unfold Placed at hplaced
  have hanswer : ∀ outer, k.phase.RunsIn outer → (∀ f o, k.phase ≠ .before f o) →
      ∃ a w' links' k', Call.Steps w links c k a w' links' k' :=
    fun outer hr hno => ⟨.answer none, _, _, _, .answer hr fun f o ho => absurd ho (hno f o)⟩
  cases hp : k.phase with
  | done r => exact Or.inl ⟨r, rfl⟩
  | chaining r metas' =>
    rw [hp] at hconf hplaced
    obtain ⟨-, hne⟩ := hconf
    obtain ⟨-, hl, -⟩ := hplaced
    obtain ⟨head, rest, hcons⟩ := List.exists_cons_of_ne_nil hne
    have hr : ResolveTo metas' (head :: rest) := by
      rw [← hl, hk.listed, resolveTo_iff hL, hcons]
    exact Or.inr ⟨_, _, _, _, .chain hp hr⟩
  | before f outer =>
    obtain ⟨ahead, hpath, -⟩ := hk.ahead hL hnd hp
    cases hpath with
    | step hx _ => exact Or.inr ⟨_, _, _, _, .next hp hx⟩
  | handling r outer => exact Or.inr (hanswer outer (hp ▸ .handling r outer) (by simp [hp]))
  | after f outer v => exact Or.inr (hanswer outer (hp ▸ .after f outer v) (by simp [hp]))
  | failed f outer e => exact Or.inr (hanswer outer (hp ▸ .failed f outer e) (by simp [hp]))
  | _ =>
    rw [hp] at hconf
    exact hconf.elim

/-- The send reads its guard list. -/
theorem layered_readGuards {w w' : World} (hk : k.Sound links c) (hs : k.method = .send)
    (hm : ∀ T m, w.managers.handlerManager.handlerMetas.get? T = some m → m.messageType = T)
    (hp : k.phase = .resolved h)
    (hL : (w.commandGuards k.msg.type).map GuardMeta.guard = L.map GuardRef.obj)
    (hst : Call.Steps w links c k .readGuards w' links' k') :
    k'.Layered links' c k.msg (k.context c) h (w.commandGuards k.msg.type) L := by
  have hsound := hk.steps hs hm hst
  have hplaced := hk.placed
  unfold Placed at hplaced
  rw [hp] at hplaced
  obtain ⟨hh, hl, -, -, hlog⟩ := hplaced
  cases hst with
  | @unguarded h' hp' hg =>
    rw [hp, Phase.resolved.injEq] at hp'
    subst hp'
    rw [hg, List.map_nil] at hL
    obtain rfl := List.map_eq_nil_iff.1 hL.symm
    refine ⟨hsound, hs, rfl, rfl, hh, hl.trans hg.symm, fun tr r hc => ?_⟩
    cases hc with
    | core hst =>
      cases hst
      rw [List.append_nil]
      show Onion.Runs _ _ [] (k.log ++ [_]) r
      rw [hlog]
      exact .core rfl
  | @guarded h' hp' hg =>
    rw [hp, Phase.resolved.injEq] at hp'
    subst hp'
    refine ⟨hsound, hs, rfl, rfl, hh, rfl, hlog, fun hnil => hg ?_⟩
    rw [hnil, List.map_nil] at hL
    exact List.map_eq_nil_iff.1 hL
  | dungling _ hd => cases hd

/-- Every guard and the handler may go on somehow. -/
theorem exists_completes (abort : GuardObj → Except PyErr Value → Prop) (msg : Msg) (ctx : Ctx) (h : Resolved)
    (p : Onion.Position GuardObj (Except PyErr Value)) :
    ∃ tr r, Onion.Completes (guardLayersWith abort msg ctx) (handlerCore h msg ctx) p tr r := by
  refine Onion.exists_completes (fun g r => ?_) ⟨[h.event msg ctx], .ok none, rfl⟩ p
  rcases g with ⟨_, _, _, _, _ | p⟩ | ⟨_, _⟩
  · exact ⟨[], r, rfl, rfl⟩
  · cases r with
    | ok v => exact ⟨_, .ok v, rfl⟩
    | error e => exact ⟨[], .error e, rfl, rfl⟩
  · exact ⟨[], r, rfl⟩

theorem GoesOn.exists {log : List Event} {p : Onion.Position GuardObj (Except PyErr Value)}
    (hg : GoesOn abort msg ctx h L log p) :
    ∃ tr r, Onion.Runs (guardLayersWith abort msg ctx) (handlerCore h msg ctx) L (log ++ tr) r := by
  obtain ⟨tr, r, hc⟩ := exists_completes abort msg ctx h p
  exact ⟨tr, r, hg tr r hc⟩

/-- A send in its layers has done the beginning of a complete call through them. -/
theorem Layered.goesOn (hk : k.Layered links c msg ctx h metas L) :
    ∃ tr r, Onion.Runs (guardLayers msg ctx) (handlerCore h msg ctx) L (k.log ++ tr) r := by
  have hconf := hk.conforms
  unfold Conforms at hconf
  split at hconf
  · obtain ⟨hlog, hne⟩ := hconf
    obtain ⟨head, rest, rfl⟩ := List.exists_cons_of_ne_nil hne
    obtain ⟨tr, r, hc⟩ := exists_completes (guardLayers msg ctx).abort msg ctx h (.before head [] rest)
    rw [hlog]
    exact ⟨_, r, Onion.runs_of_before hc⟩
  · obtain ⟨ahead, -, hgo⟩ := hconf
    exact GoesOn.exists hgo
  · exact GoesOn.exists hconf
  · exact GoesOn.exists (hconf (.ok none))
  · exact GoesOn.exists (hconf (.ok none))
  · rename_i r _
    exact ⟨[], r, by rwa [List.append_nil]⟩
  · exact hconf.elim

/-- In its layers a call keeps its handler and its guard list. -/
theorem Steps.kept {w w' : World} {a : CallAct} (hst : Call.Steps w links c k a w' links' k')
    (hk : k.Conforms abort msg ctx h L) : k'.handler = k.handler ∧ k'.listed = k.listed := by
  unfold Conforms at hk
  cases hst with
  | @next f outer n _ _ => cases n <;> exact ⟨rfl, rfl⟩
  | dungling _ _ => exact ⟨(raiseTo_leaves k (_ :: _) _).1.handler, (raiseTo_leaves k (_ :: _) _).1.listed⟩
  | answer _ _ => exact ⟨(returnTo_leaves k _ _).1.handler, (returnTo_leaves k _ _).1.listed⟩
  | raise _ => exact ⟨(raiseTo_leaves k _ _).1.handler, (raiseTo_leaves k _ _).1.listed⟩
  | @firstListener ls _ _ => cases ls <;> exact ⟨rfl, rfl⟩
  | @nextListener rest _ _ => cases rest <;> exact ⟨rfl, rfl⟩
  | resolve hp | guarded hp _ =>
    rw [hp] at hk
    exact hk.elim
  | _ => exact ⟨rfl, rfl⟩

end

theorem filterMap_leave {g : GuardObj} {ev : List Event} {r r' : Except PyErr Value}
    (ha : (guardLayersWith abort msg ctx).leave g r ev r') : ev.filterMap Event.delivery = [] := by
  unfold guardLayersWith guardLayers at ha
  simp only at ha
  split at ha
  · rw [ha]
    rfl
  · rw [ha.1]
    rfl
  · rw [ha]
    rfl

/-- A complete call through the layers calls the handler once at most. -/
theorem deliveries_of_runs {tr : List Event} {r : Except PyErr Value}
    (hr : Onion.Runs (guardLayersWith abort msg ctx) (handlerCore h msg ctx) L tr r) :
    tr.filterMap Event.delivery = [] ∨ tr.filterMap Event.delivery = [(h, msg)] := by
  induction hr with
  | core hc =>
    rw [show _ = _ from hc]
    exact Or.inr rfl
  | abort _ => exact Or.inl (filterMap_preEvents _ _ _)
  | @through g l tr ev r r' _ ha ih =>
    have henter : ((guardLayersWith abort msg ctx).enter g).filterMap Event.delivery = [] :=
      filterMap_preEvents g msg ctx
    simpa [List.filterMap_append, filterMap_leave ha, henter] using ih

/-- A complete call that calls the handler has called all pre handlers before. -/
theorem preEvents_of_runs {tr : List Event} {r : Except PyErr Value}
    (hr : Onion.Runs (guardLayersWith abort msg ctx) (handlerCore h msg ctx) L tr r)
    (hd : tr.filterMap Event.delivery ≠ []) : L.flatMap (·.preEvents msg ctx) <+: tr := by
  induction hr with
  | core _ => exact List.nil_prefix
  | abort _ => exact absurd (filterMap_preEvents _ _ _) hd
  | @through g l tr ev r r' _ ha ih =>
    have henter : ((guardLayersWith abort msg ctx).enter g).filterMap Event.delivery = [] :=
      filterMap_preEvents g msg ctx
    rw [List.filterMap_append, List.filterMap_append, henter, filterMap_leave ha, List.append_nil,
      List.nil_append] at hd
    rw [List.flatMap_cons, List.append_assoc]
    exact (List.prefix_append_right_inj _).2 ((ih hd).trans (List.prefix_append _ _))

/-- The same for a call in progress. -/
theorem preEvents_of_delivered {tr : List Event} {r : Except PyErr Value}
    (hr : Onion.Runs (guardLayersWith abort msg ctx) (handlerCore h msg ctx) L (k.log ++ tr) r)
    (hd : k.deliveries ≠ []) :
    L.flatMap (·.preEvents msg ctx) <+: k.log := by
  have hpre := preEvents_of_runs hr (by
    rw [List.filterMap_append]
    exact fun hnil => hd (List.append_eq_nil_iff.1 hnil).1)
  rcases List.prefix_or_prefix_of_prefix hpre (List.prefix_append _ _) with hp | ⟨l, hl⟩
  · exact hp
  · have hno : (L.flatMap (·.preEvents msg ctx)).filterMap Event.delivery = [] := by
      simp [List.filterMap_flatMap, filterMap_preEvents]
    rw [← hl, List.filterMap_append] at hno
    exact absurd (List.append_eq_nil_iff.1 hno).1 hd

end Call

/-! ### Before the guard list is read -/

/-- The send has not read its guard list. -/
def Phase.Early : Phase → Prop
  | .entered | .resolving _ | .resolved _ => True
  | _ => False

/-- The handler meta a send has found. -/
def Phase.found : Phase → Option FuncMeta
  | .resolving m => some m
  | .resolved h => some h.funcMeta
  | _ => none

/-- An early call has come from an early one, and has looked up its handler. -/
theorem Call.Steps.early {w w' : World} {links links' : Links} {c : Nat} {k k' : Call} {a : CallAct}
    (h : Call.Steps w links c k a w' links' k') (he : k'.phase.Early) :
    k.phase.Early ∧ ∀ m, k'.phase.found = some m →
      k.phase.found = some m ∨ w.managers.handlerManager.handlerMetas.get? k.msg.type = some m := by
  have hprep : k'.phase.Prepares := by
    generalize k'.phase = p at he
    cases p <;> first | exact he.elim | trivial
  cases h.preparing rfl hprep with
  | found hp hm =>
    refine ⟨hp ▸ trivial, fun m' hm' => Or.inr ?_⟩
    cases hm'
    exact hm
  | resolve hp =>
    refine ⟨hp ▸ trivial, fun m' hm' => Or.inl ?_⟩
    rw [hp]
    exact hm'
  | guarded _ | listen _ _ | resolveListener _ _ => exact he.elim

namespace System

/-! ### Runs -/

section

variable {bases : Nat → Option Cls × Option Cls} {s s' : System} {J : List Entry}

/-- Early sends are sound whatever the other calls do, and have the handler of their type. -/
def Prepared (bases : Nat → Option Cls × Option Cls) (J : List Entry) (s : System) : Prop :=
  ∀ c (k : Call), s.calls[c]? = some k → k.msg.type ≠ Cls.any ∧ (k.method = .send → k.phase.Early →
    k.Sound s.links c ∧ ∀ m, k.phase.found = some m → ∃ J₀, J₀ <+: J ∧ resolved bases k.msg.type J₀.reverse = some m)

theorem Prepared.step {a : SysAct} (h : Prepared bases J s) (hJ : Journaled bases s.world J)
    (hs : s.step a = some s') : Prepared bases (J ++ s.entries a) s' := by
  intro c k' hk'
  rcases step_calls hs hk' with ⟨hk, -⟩ | ⟨method, msg, context, scope, rfl, hi, -, rfl, hl⟩ | ⟨b, k, rfl, hk, hst⟩
  · refine ⟨(h c k' hk).1, fun hsend he => ?_⟩
    obtain ⟨hsound, hfound⟩ := (h c k' hk).2 hsend he
    refine ⟨hsound.other fun x hx => ?_, fun m hm => ?_⟩
    · cases hp : k'.phase <;> simp [Call.unread, hp] at hx
      rw [hp] at he
      exact he.elim
    · obtain ⟨J₀, hJ₀, hres⟩ := hfound m hm
      exact ⟨J₀, hJ₀.trans (List.prefix_append _ _), hres⟩
  · refine ⟨hi.1, fun hsend _ => ?_⟩
    obtain rfl : method = .send := hsend
    exact ⟨Call.sound_begin _ _ _ _ _, fun m hm => by cases hm⟩
  · obtain ⟨hany, hearly⟩ := h c k hk
    obtain ⟨hmeth, hmsg, -, -⟩ := hst.args
    refine ⟨hmsg ▸ hany, fun hsend he => ?_⟩
    rw [hmeth] at hsend
    obtain ⟨he, hfound⟩ := hst.early he
    obtain ⟨hsound, hold⟩ := hearly hsend he
    refine ⟨hsound.steps hsend hJ.messageType hst, fun m hm => ?_⟩
    rw [hmsg]
    rcases hfound m hm with hm | hm
    · obtain ⟨J₀, hJ₀, hres⟩ := hold m hm
      exact ⟨J₀, hJ₀.trans (List.prefix_append _ _), hres⟩
    · rw [hJ.handlers] at hm
      exact ⟨J, List.prefix_append _ _, hm⟩

theorem prepared_run {acts : List SysAct} (h : Prepared bases J s) (hJ : Journaled bases s.world J)
    (hrun : Run.run step s acts = some s') : Prepared bases (J ++ s.journal acts) s' :=
  keeps_run (I := Prepared bases) (P := fun _ _ => True) (fun _ _ _ _ hJ _ hs h => h.step hJ hs) hJ
    (Run.meets_of_forall (fun _ _ => trivial) s acts) hrun h

/-- No other call links a guard of call `c` that this call has linked and not read yet. -/
def Undisturbed (c : Nat) (s : System) (a : SysAct) : Prop :=
  ∀ d objs, a = .call d (.chain objs) → d ≠ c → ∀ k ∈ s.calls[c]?, ∀ x ∈ objs, x ∉ k.unread

instance (c : Nat) (s : System) (a : SysAct) : Decidable (Undisturbed c s a) :=
  match a with
  | .call d (.chain objs) =>
    decidable_of_iff (d ≠ c → ∀ k ∈ s.calls[c]?, ∀ x ∈ objs, x ∉ k.unread) (by simp [Undisturbed])
  | .call _ .lookup | .call _ .resolveMeta | .call _ .readGuards | .call _ .callNext | .call _ .nextFalse
  | .call _ (.answer _) | .call _ (.raise _) | .world _ | .openScope _ | .closeScope _ | .start .. =>
    .isTrue (by simp [Undisturbed])

/-- The send stays in its layers. -/
theorem layered_step {a : SysAct} {c : Nat} {msg : Msg} {ctx : Ctx} {h : Resolved} {metas : List GuardMeta}
    {L : List GuardObj} (hL : metas.map GuardMeta.guard = L.map GuardRef.obj) (hnd : L.Nodup)
    (hplain : ∀ g ∈ L, g.isCustom = false) (hJ : Journaled bases s.world J) (hun : Undisturbed c s a)
    (hs : s.step a = some s') {k : Call} (hk : s.calls[c]? = some k) (hlay : k.Layered s.links c msg ctx h metas L) :
    ∃ k', s'.calls[c]? = some k' ∧ k'.Layered s'.links c msg ctx h metas L := by
  obtain ⟨k', hk', hcase⟩ := step_of_call hs hk
  refine ⟨k', hk', ?_⟩
  rcases hcase with ⟨rfl, hne⟩ | ⟨b, rfl, hst⟩
  · -- another action
    refine { hlay with sound := hlay.sound.other fun x hx => ?_ }
    rcases step_links hs with ⟨hl, -⟩ | ⟨d, head, rest, e, rfl, hl⟩
    · rw [hl]
    · have hdc : d ≠ c := fun hdc => hne _ (by rw [hdc])
      rw [hl]
      exact Chain.linkFrom_of_notMem fun hmem => hun d _ rfl hdc k' hk x hmem hx
  · -- an action of the send itself
    obtain ⟨hmeth, hmsg, hctx, -⟩ := hst.args
    obtain ⟨hh, hl⟩ := hst.kept hlay.conforms
    refine ⟨hlay.sound.steps hlay.send hJ.messageType hst, hmeth.trans hlay.send, hmsg.trans hlay.message, ?_,
      hh.trans hlay.handler, hl.trans hlay.listed, hlay.steps hL hnd hplain hst⟩
    rw [← hlay.context, Call.context, Call.context, hctx]

theorem layered_run {acts : List SysAct} {c : Nat} {msg : Msg} {ctx : Ctx} {h : Resolved} {metas : List GuardMeta}
    {L : List GuardObj} (hL : metas.map GuardMeta.guard = L.map GuardRef.obj) (hnd : L.Nodup)
    (hplain : ∀ g ∈ L, g.isCustom = false) (hJ : Journaled bases s.world J)
    (hun : Run.Meets step (Undisturbed c) s acts) (hrun : Run.run step s acts = some s') {k : Call} (hk : s.calls[c]? = some k)
    (hlay : k.Layered s.links c msg ctx h metas L) :
    ∃ k', s'.calls[c]? = some k' ∧ k'.Layered s'.links c msg ctx h metas L :=
  keeps_run (I := fun _ s => ∃ k, s.calls[c]? = some k ∧ k.Layered s.links c msg ctx h metas L)
    (fun _ _ _ _ hJ hu hs ⟨_, hk, hlay⟩ => layered_step hL hnd hplain hJ hu hs hk hlay) hJ hun hrun ⟨k, hk, hlay⟩

/-- In every run in which all guards are registered with `pre_handle` and `post_handle`, and each registry is
included after its registrations and once at most: a send that has resolved its handler and reads its guard list goes
through the guards of its type, as long as no other call links one of them before the send has read its link.
Whatever the guards and the handler do, what it has done is the beginning of a complete call through these layers,
with the handler of its own type inside, and it is a complete one when the send ends; until then it can go on. -/
theorem sends_through_layers (bases : Nat → Option Cls × Option Cls) (as bs : List SysAct) (s₀ s : System) (c : Nat)
    (k₀ : Call) (h : Resolved) (hrun : Run.run step (new bases) as = some s₀)
    (hplain : ∀ r ord g, .world (.addGuard r ord g) ∉ as) (hafter : IncludedAfter ((new bases).journal as))
    (honce : (includeOrder ((new bases).journal as)).Nodup)
    (hk₀ : s₀.calls[c]? = some k₀) (hsend : k₀.method = .send) (hp : k₀.phase = .resolved h)
    (hrun' : Run.run step s₀ (.call c .readGuards :: bs) = some s)
    (hun : Run.Meets step (Undisturbed c) s₀ (.call c .readGuards :: bs)) :
    (h.call = c ∧ h.scope = k₀.scope ∧ ∃ J₀, J₀ <+: (new bases).journal as ∧
      resolved bases k₀.msg.type J₀.reverse = some h.funcMeta) ∧
    ∃ k, s.calls[c]? = some k ∧ k.msg = k₀.msg ∧
      (∃ tr r, Onion.Runs (guardLayers k₀.msg (k₀.context c)) (handlerCore h k₀.msg (k₀.context c))
        (objectsOf (layersFor ((new bases).journal as) k₀.msg.type)) (k.log ++ tr) r) ∧
      (∀ r, k.phase = .done r →
        Onion.Runs (guardLayers k₀.msg (k₀.context c)) (handlerCore h k₀.msg (k₀.context c))
          (objectsOf (layersFor ((new bases).journal as) k₀.msg.type)) k.log r) ∧
      (k.deliveries ≠ [] → (objectsOf (layersFor ((new bases).journal as) k₀.msg.type)).flatMap
        (·.preEvents k₀.msg (k₀.context c)) <+: k.log) ∧
      ((∃ r, k.phase = .done r) ∨ ∃ a s', s.step (.call c a) = some s') := by
  have hJ := journaled_of_run hrun
  have hprep : Prepared bases ([] ++ (new bases).journal as) s₀ :=
    prepared_run (fun c k hk => by simp [new] at hk) (journaled_new bases) hrun
  obtain ⟨hany, hearly⟩ := hprep c k₀ hk₀
  obtain ⟨hsound, hfound⟩ := hearly hsend (hp ▸ trivial)
  have hnum : Numbered s₀.world ([] ++ (new bases).journal as) := numbered_run (.new bases) hplain hrun
  obtain ⟨hL, hnd⟩ := hnum.nodup_layers honce hany
  have hguards := hnum.plain_layers k₀.msg.type
  rw [List.nil_append] at hfound hL hnd hguards
  have hlist : s₀.world.commandGuards k₀.msg.type = layersFor ((new bases).journal as) k₀.msg.type := by
    rw [hJ.commandGuards hany, guardList_eq hafter]
  obtain ⟨hcall, hscope, -⟩ := hsound.own h (by
    have hplaced := hsound.placed
    unfold Call.Placed at hplaced
    rw [hp] at hplaced
    exact hplaced.1)
  refine ⟨⟨hcall, hscope, hfound h.funcMeta (by rw [hp]; rfl)⟩, ?_⟩
  -- the guard list is read
  obtain ⟨u, hu, hrun'⟩ := Run.run_cons.1 hrun'
  obtain ⟨k₁, hk₁, hcase⟩ := step_of_call hu hk₀
  rcases hcase with ⟨-, hne⟩ | ⟨b, hb, hst⟩
  · exact absurd rfl (hne _)
  · cases hb
    rw [← hlist] at hL hnd hguards ⊢
    have hlay := Call.layered_readGuards hsound hsend hJ.messageType hp hL hst
    obtain ⟨k, hk, hlay⟩ := layered_run hL hnd hguards (journaled_step hJ hu) (hun.2 u hu) hrun' hk₁ hlay
    obtain ⟨tr, r, hgo⟩ := hlay.goesOn
    refine ⟨k, hk, hlay.message, ⟨tr, r, hgo⟩, fun r hr => ?_, Call.preEvents_of_delivered hgo, ?_⟩
    · have hconf := hlay.conforms
      unfold Call.Conforms at hconf
      rw [hr] at hconf
      exact hconf
    · refine (hlay.progress hL hnd s.world).imp_right ?_
      rintro ⟨a, w', links', k', hst⟩
      obtain ⟨s', hs', -⟩ := step_call hk hst
      exact ⟨a, s', hs'⟩

end

/-! ### Sends inside a send -/

open UserApp

/-- A global guard is registered, and `CreateUser` is sent and has resolved its handler. -/
def guardedSend : List SysAct :=
  setup ++ [.world (.preHandle 0 .listed (guardFunc 3 Cls.any)), .world (.incl 0)] ++
    [.start .send ⟨0, CreateUser⟩ none none, .call 0 .lookup, .call 0 .resolveMeta]

/-- A whole send of `UpdateUser`. -/
def innerSend : List SysAct :=
  sendUpTo 1 ⟨1, UpdateUser⟩ [globalGuard] ++ [.call 1 .callNext, .call 1 (.answer none)]

/-- The guard sends `UpdateUser` in its `pre_handle`, and goes on. -/
def sendInGuard : List SysAct :=
  [.call 0 .readGuards, .call 0 (.chain [globalGuard])] ++ innerSend ++ [.call 0 .callNext, .call 0 (.answer none)]

/-- The handler sends `UpdateUser`, and goes on. -/
def sendInHandler : List SysAct :=
  [.call 0 .readGuards, .call 0 (.chain [globalGuard]), .call 0 .callNext] ++ innerSend ++ [.call 0 (.answer none)]

private theorem guardedSend_included : IncludedAfter ((new bases).journal guardedSend) ∧
    (includeOrder ((new bases).journal guardedSend)).Nodup := by
  obtain ⟨r₁, g₁, ord₁, h₁, r₂, g₂, ord₂, h₂, e, hJ⟩ : ∃ r₁ g₁ ord₁ h₁ r₂ g₂ ord₂ h₂ e,
      (new bases).journal guardedSend = [.handler r₁ g₁ ord₁ h₁, .handler r₂ g₂ ord₂ h₂, .guard e, .incl 0] :=
    ⟨_, _, _, _, _, _, _, _, _, rfl⟩
  rw [hJ]
  refine ⟨fun J₁ e' J₂ hl hmem => ?_, by simp [includeOrder]⟩
  rcases J₁ with _ | ⟨x₁, _ | ⟨x₂, _ | ⟨x₃, J₁⟩⟩⟩ <;> simp at hl
  · obtain ⟨rfl, rfl, -⟩ := hl
    simp at hmem
  · obtain ⟨-, -, -, hl⟩ := hl
    rcases J₁ with _ | ⟨x₄, J₁⟩ <;> simp at hl

/-- The only call, before it reads its guard list: the method, the message, and the call that resolved its handler. -/
private def resolvedBy (s : System) : Option (Method × Msg × Nat) :=
  match s.calls with
  | [k] =>
    match k.phase with
    | .resolved h => some (k.method, k.msg, h.call)
    | _ => none
  | _ => none

private theorem guardedSend_run : ∃ s₀ k₀ h, Run.run step (new bases) guardedSend = some s₀ ∧ s₀.calls = [k₀] ∧
    k₀.phase = .resolved h ∧ k₀.method = .send ∧ k₀.msg = ⟨0, CreateUser⟩ ∧ h.call = 0 := by
  have hrun : (Run.run step (new bases) guardedSend).bind resolvedBy = some (.send, ⟨0, CreateUser⟩, 0) := by
    decide +kernel
  obtain ⟨s₀, hs₀, hres⟩ := Option.bind_eq_some_iff.1 hrun
  unfold resolvedBy at hres
  split at hres
  · rename_i k₀ hcalls
    split at hres
    · rename_i h hp
      simp only [Option.some.injEq, Prod.mk.injEq] at hres
      exact ⟨s₀, k₀, h, hs₀, hcalls, hp, hres⟩
    · cases hres
  · cases hres

/-- The send of the guard takes the first send to another handler: what it has done is not the beginning of a call
through its layers. -/
theorem nested_send_diverts :
    ∃ s₀ s k₀ h k, Run.run step (new bases) guardedSend = some s₀ ∧
      (∀ r ord g, .world (.addGuard r ord g) ∉ guardedSend) ∧ IncludedAfter ((new bases).journal guardedSend) ∧
      (includeOrder ((new bases).journal guardedSend)).Nodup ∧ s₀.calls = [k₀] ∧ k₀.method = .send ∧
      k₀.phase = .resolved h ∧ Run.run step s₀ sendInGuard = some s ∧ s.calls[0]? = some k ∧
      ¬ ∃ tr r, Onion.Runs (guardLayers k₀.msg (k₀.context 0)) (handlerCore h k₀.msg (k₀.context 0))
        (objectsOf (layersFor ((new bases).journal guardedSend) k₀.msg.type)) (k.log ++ tr) r := by
  obtain ⟨s₀, k₀, h, hs₀, hcalls, hp, hsend, hmsg, hcall⟩ := guardedSend_run
  have hrun : (Run.run step (new bases) (guardedSend ++ sendInGuard)).map outline =
      some [⟨.send, ⟨0, CreateUser⟩, [(1, UpdateUser, ⟨0, CreateUser⟩)]⟩,
        ⟨.send, ⟨1, UpdateUser⟩, [(1, UpdateUser, ⟨1, UpdateUser⟩)]⟩] := by
    decide +kernel
  obtain ⟨s, hs, hout⟩ := Option.map_eq_some_iff.1 hrun
  obtain ⟨t, ht, hs⟩ := Run.run_append.1 hs
  rw [hs₀, Option.some.injEq] at ht
  subst ht
  rcases hcalls' : s.calls with _ | ⟨k, rest⟩
  · simp [outline, hcalls'] at hout
  · simp only [outline, hcalls', List.map_cons, List.cons.injEq, Outline.mk.injEq] at hout
    obtain ⟨⟨-, -, hdel⟩, -⟩ := hout
    obtain ⟨⟨h', m⟩, hd, hh⟩ := List.map_eq_singleton_iff.1 hdel
    simp only [Prod.mk.injEq] at hh
    refine ⟨s₀, s, k₀, h, k, hs₀, by simp [guardedSend, setup], guardedSend_included.1, guardedSend_included.2,
      hcalls, hsend, hp, hs, by simp [hcalls'], ?_⟩
    rintro ⟨tr, r, hr⟩
    have hdel := Call.deliveries_of_runs hr
    rw [List.filterMap_append, ← Call.deliveries, hd] at hdel
    -- the handler called is not the one resolved
    simp only [List.cons_append, List.cons.injEq, Prod.mk.injEq, reduceCtorEq, false_or] at hdel
    obtain ⟨⟨rfl, -⟩, -⟩ := hdel
    omega

/-- The send of the handler leaves the first send in its layers. -/
theorem nested_send_in_handler :
    ∃ s₀ s k₀ h k r, Run.run step (new bases) guardedSend = some s₀ ∧ s₀.calls = [k₀] ∧
      k₀.phase = .resolved h ∧ Run.run step s₀ sendInHandler = some s ∧ s.calls[0]? = some k ∧ k.phase = .done r ∧
      Onion.Runs (guardLayers k₀.msg (k₀.context 0)) (handlerCore h k₀.msg (k₀.context 0))
        (objectsOf (layersFor ((new bases).journal guardedSend) k₀.msg.type)) k.log r := by
  obtain ⟨s₀, k₀, h, hs₀, hcalls, hp, hsend, hmsg, hcall⟩ := guardedSend_run
  have hdone : ((Run.run step (new bases) (guardedSend ++ sendInHandler)).bind fun s =>
      s.calls[0]?.map fun k => k.phase.returned) = some (some none) := by
    decide +kernel
  have hun : Run.Meets step (Undisturbed 0) (new bases) (guardedSend ++ sendInHandler) := by decide +kernel
  obtain ⟨s, hs, hk⟩ := Option.bind_eq_some_iff.1 hdone
  obtain ⟨k, hk, hd⟩ := Option.map_eq_some_iff.1 hk
  have hr : k.phase = .done (.ok none) := Phase.returned_eq_some.1 hd
  obtain ⟨t, ht, hs⟩ := Run.run_append.1 hs
  rw [hs₀, Option.some.injEq] at ht
  subst ht
  obtain ⟨-, k', hk', -, -, hall, -⟩ := sends_through_layers bases guardedSend _ s₀ s 0 k₀ h hs₀
    (by simp [guardedSend, setup]) guardedSend_included.1 guardedSend_included.2 (by simp [hcalls]) hsend hp hs
    (Run.meets_append hun hs₀).2
  rw [hk, Option.some.injEq] at hk'
  subst hk'
  exact ⟨s₀, s, k₀, h, k, .ok none, hs₀, hcalls, hp, hs, hk, hr, hall _ hr⟩

end System

end Anywise
