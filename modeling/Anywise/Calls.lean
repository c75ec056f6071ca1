import Anywise.System

/-!
# What an action of a call can do

`Call.Steps` lists the transitions of a call, with the conditions of each (`Call.steps_of_step`), and `System.Steps`
those of the system.  From these it is read off what an action changes: in the list of calls (`step_calls`,
`step_of_call`), in the links (`step_links`), in the world (`step_world`) and, after a run, in the journal
(`journaled_run`).
-/

namespace Anywise

/-! ### Transitions of a call -/

/-- The guards around user code that is running. -/
inductive Phase.RunsIn : Phase → List Frame → Prop
  | before {f : Frame} (outer : List Frame) (h : f.guard.hasPre = true) : RunsIn (.before f outer) outer
  | handling (h : Resolved) (outer : List Frame) : RunsIn (.handling h outer) outer
  | after (f : Frame) (outer : List Frame) (v : Value) : RunsIn (.after f outer v) outer
  | failed (f : Frame) (outer : List Frame) (e : PyErr) : RunsIn (.failed f outer e) outer

/-- User code is running that no guard is around. -/
inductive Phase.RunsFree : Phase → Prop
  | resolving (m : FuncMeta) : RunsFree (.resolving m)
  | chaining (h : Resolved) {metas : List GuardMeta} (hc : (metas.any fun m => m.guard.isClass) = true) :
      RunsFree (.chaining h metas)
  | publishing (rest : List Resolved) : RunsFree (.publishing rest)

/-- With this action the guard finds no next one: none is set, or it is false. -/
inductive Dangles (links : Links) (g : GuardObj) : CallAct → Prop
  | unset (h : links g = none) : Dangles links g .callNext
  | nextFalse {next : GuardObj} (h : links g = some (.inl next)) (hc : next.isCustom = true) :
      Dangles links g .nextFalse

/-- The transitions of call number `c`. -/
inductive Call.Steps (w : World) (links : Links) (c : Nat) (k : Call) : CallAct → World → Links → Call → Prop
  | unregistered (hp : k.phase = .entered)
      (hm : k.method = .send ∧ w.managers.handlerManager.handlerMetas.get? k.msg.type = none ∨
        k.method = .publish ∧ w.managers.listenerManager.listenerMetas.get? k.msg.type = none) :
      Steps w links c k .lookup w links k.unregistered
  | found {m : FuncMeta} (hp : k.phase = .entered) (hs : k.method = .send)
      (hm : w.managers.handlerManager.handlerMetas.get? k.msg.type = some m) :
      Steps w links c k .lookup w links { k with phase := .resolving m }
  | listen {metas : List FuncMeta} (hp : k.phase = .entered) (hs : k.method = .publish)
      (hm : w.managers.listenerManager.listenerMetas.get? k.msg.type = some metas) :
      Steps w links c k .lookup w links { k with phase := .listening [] }
  | resolve {m : FuncMeta} (hp : k.phase = .resolving m) :
      Steps w links c k .resolveMeta w links
        { k with phase := .resolved ⟨m, c, k.scope⟩, handler := some ⟨m, c, k.scope⟩ }
  | resolveListener {m : FuncMeta} {ls : List Resolved} (hp : k.phase = .listening ls)
      (hm : k.nextListener w ls = some m) :
      Steps w links c k .resolveMeta w links { k with phase := .listening (ls ++ [⟨m, c, k.scope⟩]) }
  | unguarded {h : Resolved} (hp : k.phase = .resolved h) (hg : w.commandGuards k.msg.type = []) :
      Steps w links c k .readGuards (w.step (.readGuards k.msg.type)) links
        (k.enterNext (.inr h) k.msg (k.context c) [])
  | guarded {h : Resolved} (hp : k.phase = .resolved h) (hg : w.commandGuards k.msg.type ≠ []) :
      Steps w links c k .readGuards (w.step (.readGuards k.msg.type)) links
        { k with phase := .chaining h (w.commandGuards k.msg.type), listed := w.commandGuards k.msg.type }
  | chain {h : Resolved} {metas : List GuardMeta} {head : GuardObj} {rest : List GuardObj}
      (hp : k.phase = .chaining h metas) (hr : ResolveTo metas (head :: rest)) :
      Steps w links c k (.chain (head :: rest)) w (Chain.linkFrom links head rest h)
        ({ k with guards := head :: rest }.enterNext (.inl head) k.msg (k.context c) [])
  | dungling {a : CallAct} {f : Frame} {outer : List Frame} (hp : k.phase = .before f outer)
      (hd : Dangles links f.guard a) : Steps w links c k a w links (k.raiseTo (f :: outer) (.dunglingGuard f.guard))
  | next {f : Frame} {outer : List Frame} {n : GuardObj ⊕ Resolved} (hp : k.phase = .before f outer)
      (hl : links f.guard = some n) :
      Steps w links c k .callNext w links (k.enterNext n f.command f.context (f :: outer))
  | firstListener {ls : List Resolved} (hp : k.phase = .listening ls) (hm : k.nextListener w ls = none) :
      Steps w links c k .callNext w links (k.publishNext c ls)
  | answer {outer : List Frame} {v : Value} (hp : k.phase.RunsIn outer)
      (hc : ∀ f o, k.phase = .before f o → f.guard.isCustom = true) :
      Steps w links c k (.answer v) w links (k.returnTo outer v)
  | nextListener {rest : List Resolved} {v : Value} (hp : k.phase = .publishing rest) :
      Steps w links c k (.answer v) w links (k.publishNext c rest)
  | raise {outer : List Frame} {e : PyErr} (hp : k.phase.RunsIn outer) :
      Steps w links c k (.raise e) w links (k.raiseTo outer e)
  | failListener {ls : List Resolved} {m : FuncMeta} {e : PyErr} (hp : k.phase = .listening ls)
      (hm : k.nextListener w ls = some m) :
      Steps w links c k (.raise e) w links { k with phase := .done (.error e) }
  | fail {e : PyErr} (hp : k.phase.RunsFree) :
      Steps w links c k (.raise e) w links { k with phase := .done (.error e) }

/-- The call is finding out what to call. -/
def Phase.Prepares : Phase → Prop
  | .entered | .resolving _ | .resolved _ | .chaining _ _ | .listening _ => True
  | _ => False

/-- The transitions after which call number `c` goes on finding out what to call. -/
inductive Call.Preparing (w : World) (c : Nat) (k : Call) : Call → Prop
  | found {m : FuncMeta} (hp : k.phase = .entered)
      (hm : w.managers.handlerManager.handlerMetas.get? k.msg.type = some m) :
      Preparing w c k { k with phase := .resolving m }
  | resolve {m : FuncMeta} (hp : k.phase = .resolving m) :
      Preparing w c k { k with phase := .resolved ⟨m, c, k.scope⟩, handler := some ⟨m, c, k.scope⟩ }
  | guarded {h : Resolved} (hp : k.phase = .resolved h) :
      Preparing w c k
        { k with phase := .chaining h (w.commandGuards k.msg.type), listed := w.commandGuards k.msg.type }
  | listen {metas : List FuncMeta} (hp : k.phase = .entered)
      (hm : w.managers.listenerManager.listenerMetas.get? k.msg.type = some metas) :
      Preparing w c k { k with phase := .listening [] }
  | resolveListener {m : FuncMeta} {ls : List Resolved} (hp : k.phase = .listening ls)
      (hm : k.nextListener w ls = some m) :
      Preparing w c k { k with phase := .listening (ls ++ [⟨m, c, k.scope⟩]) }

theorem GuardObj.hasPre_of_isCustom {g : GuardObj} (h : g.isCustom = true) : g.hasPre = true := by
  cases g with
  | guard r n t pre post => cases h
  | custom i c => rfl

section Transitions

variable {w w' : World} {links links' : Links} {c : Nat} {k k' : Call}

private theorem Call.steps_of_lookup (h : k.step w links c .lookup = some (w', links', k')) :
    Call.Steps w links c k .lookup w' links' k' := by
  simp only [Call.step] at h
  split at h
  · rename_i hp hs
    split at h
    · rename_i hm
      cases h
      exact .unregistered hp (Or.inl ⟨hs, hm⟩)
    · rename_i m hm
      cases h
      exact .found hp hs hm
  · rename_i hp hs
    split at h
    · rename_i hm
      cases h
      exact .unregistered hp (Or.inr ⟨hs, hm⟩)
    · rename_i metas hm
      cases h
      exact .listen hp hs hm
  · cases h

private theorem Call.steps_of_answer {v : Value} (h : k.step w links c (.answer v) = some (w', links', k')) :
    Call.Steps w links c k (.answer v) w' links' k' := by
  simp only [Call.step] at h
  split at h
  · rename_i f outer hp
    split at h
    · rename_i hc
      cases h
      refine .answer (hp ▸ .before outer (GuardObj.hasPre_of_isCustom hc)) fun f' o' hp' => ?_
      rw [hp] at hp'
      cases hp'
      exact hc
    · cases h
  · rename_i r outer hp
    cases h
    exact .answer (hp ▸ .handling r outer) fun f o hp' => by rw [hp] at hp'; cases hp'
  · rename_i f outer r hp
    cases h
    exact .answer (hp ▸ .after f outer r) fun f o hp' => by rw [hp] at hp'; cases hp'
  · rename_i f outer e hp
    cases h
    exact .answer (hp ▸ .failed f outer e) fun f o hp' => by rw [hp] at hp'; cases hp'
  · rename_i rest hp
    cases h
    exact .nextListener hp
  · cases h

private theorem Call.steps_of_raise {e : PyErr} (h : k.step w links c (.raise e) = some (w', links', k')) :
    Call.Steps w links c k (.raise e) w' links' k' := by
  simp only [Call.step] at h
  split at h
  · rename_i m hp
    cases h
    exact .fail (hp ▸ .resolving m)
  · rename_i r metas hp
    split at h
    · rename_i hc
      cases h
      exact .fail (hp ▸ .chaining r hc)
    · cases h
  · rename_i f outer hp
    split at h
    · rename_i hpre
      cases h
      exact .raise (hp ▸ .before outer hpre)
    · cases h
  · rename_i r outer hp
    cases h
    exact .raise (hp ▸ .handling r outer)
  · rename_i f outer r hp
    cases h
    exact .raise (hp ▸ .after f outer r)
  · rename_i f outer e' hp
    cases h
    exact .raise (hp ▸ .failed f outer e')
  · rename_i ls hp
    split at h
    · rename_i hm
      cases h
      obtain ⟨m, hm⟩ := Option.isSome_iff_exists.1 hm
      exact .failListener hp hm
    · cases h
  · rename_i rest hp
    cases h
    exact .fail (hp ▸ .publishing rest)
  · cases h

/-- Every action is one of the transitions. -/
theorem Call.steps_of_step {a : CallAct} (h : k.step w links c a = some (w', links', k')) :
    Call.Steps w links c k a w' links' k' := by
  cases a with
  | lookup => exact Call.steps_of_lookup h
  | resolveMeta =>
    simp only [Call.step] at h
    split at h
    · rename_i m hp
      cases h
      exact .resolve hp
    · rename_i ls hp
      split at h
      · rename_i m hm
        cases h
        exact .resolveListener hp hm
      · cases h
    · cases h
  | readGuards =>
    simp only [Call.step] at h
    split at h
    · rename_i r hp
      split at h
      · rename_i hg
        cases h
        exact .unguarded hp hg
      · rename_i hg
        cases h
        exact .guarded hp hg
    · cases h
  | chain objs =>
    simp only [Call.step] at h
    split at h
    · rename_i r metas hp
      split at h
      · rename_i hr
        split at h
        · cases h
        · cases h
          exact .chain hp hr
      · cases h
    · cases h
  | callNext =>
    simp only [Call.step] at h
    split at h
    · rename_i f outer hp
      split at h
      · rename_i hl
        cases h
        exact .dungling hp (.unset hl)
      · rename_i n hl
        cases h
        exact .next hp hl
    · rename_i ls hp
      split at h
      · cases h
      · rename_i hm
        cases h
        exact .firstListener hp hm
    · cases h
  | nextFalse =>
    simp only [Call.step] at h
    split at h
    · rename_i f outer hp
      split at h
      · rename_i next hl
        split at h
        · rename_i hc
          cases h
          exact .dungling hp (.nextFalse hl hc)
        · cases h
      · cases h
    · cases h
  | answer v => exact Call.steps_of_answer h
  | raise e => exact Call.steps_of_raise h

/-- Every transition is taken by its action. -/
theorem Call.Steps.step {a : CallAct} (h : Call.Steps w links c k a w' links' k') :
    k.step w links c a = some (w', links', k') := by
  cases h with
  | unregistered hp hm =>
    rcases hm with ⟨hs, hm⟩ | ⟨hs, hm⟩ <;> simp only [Call.step, hp, hs, hm]
  | found hp hs hm => simp only [Call.step, hp, hs, hm]
  | listen hp hs hm => simp only [Call.step, hp, hs, hm]
  | resolve hp => simp only [Call.step, hp]
  | resolveListener hp hm => simp only [Call.step, hp, hm]
  | unguarded hp hg => simp only [Call.step, hp, hg, ↓reduceIte]
  | guarded hp hg => simp only [Call.step, hp, hg, ↓reduceIte]
  | chain hp hr => simp only [Call.step, hp, hr, ↓reduceIte]
  | dungling hp hd =>
    cases hd with
    | unset hl => simp only [Call.step, hp, hl]
    | nextFalse hl hc => simp only [Call.step, hp, hl, hc, ↓reduceIte]
  | next hp hl => simp only [Call.step, hp, hl]
  | firstListener hp hm => simp only [Call.step, hp, hm]
  | @answer outer v hp hc =>
    have hcustom := hc
    generalize hph : k.phase = p at hp hc
    cases hp with
    | before _ _ => simp only [Call.step, hph, hcustom _ _ hph, ↓reduceIte]
    | handling _ _ => simp only [Call.step, hph]
    | after _ _ _ => simp only [Call.step, hph]
    | failed _ _ _ => simp only [Call.step, hph]
  | nextListener hp => simp only [Call.step, hp]
  | raise hp =>
    generalize hph : k.phase = p at hp
    cases hp with
    | before _ hpre => simp only [Call.step, hph, hpre, ↓reduceIte]
    | handling _ _ => simp only [Call.step, hph]
    | after _ _ _ => simp only [Call.step, hph]
    | failed _ _ _ => simp only [Call.step, hph]
  | failListener hp hm => simp only [Call.step, hp, hm, Option.isSome_some, ↓reduceIte]
  | fail hp =>
    generalize hph : k.phase = p at hp
    cases hp with
    | resolving _ => simp only [Call.step, hph]
    | chaining _ hc => simp only [Call.step, hph, hc, ↓reduceIte]
    | publishing _ => simp only [Call.step, hph]

end Transitions

/-! ### Actions of the system -/

namespace System

variable {s s' : System} {a : SysAct} {c : Nat}

/-- The transitions of the system. -/
inductive Steps (s : System) : SysAct → System → Prop
  | world (b : WorldAct) : Steps s (.world b) { s with world := s.world.step b }
  | openScope {n : Nat} (h : .given n ∉ s.scopes) : Steps s (.openScope n) { s with scopes := s.scopes ++ [.given n] }
  | closeScope {n : Nat} (h : .given n ∈ s.scopes) :
      Steps s (.closeScope n) { s with scopes := s.scopes.erase (.given n) }
  | start {method : Method} {msg : Msg} (context : Option Nat) (h : HasInstances s.world msg.type) :
      Steps s (.start method msg context none) { s with
        calls := s.calls ++ [begin s.calls.length method msg context none]
        scopes := s.scopes ++ [.own s.calls.length] }
  | startIn {method : Method} {msg : Msg} (context : Option Nat) (n : Nat) (h : HasInstances s.world msg.type) :
      Steps s (.start method msg context (some n))
        { s with calls := s.calls ++ [begin s.calls.length method msg context (some n)] }
  | call {c : Nat} {b : CallAct} {k k' : Call} {w : World} {links : Links} (hk : s.calls[c]? = some k)
      (h : Call.Steps s.world s.links c k b w links k') :
      Steps s (.call c b) { s with world := w, links := links, calls := s.calls.set c k' }

/-- Every action is one of the transitions. -/
theorem steps_of_step (h : s.step a = some s') : Steps s a s' := by
  cases a with
  | world b =>
    cases h
    exact .world b
  | openScope n =>
    simp only [step] at h
    split at h
    · cases h
    · rename_i hn
      cases h
      exact .openScope hn
  | closeScope n =>
    simp only [step] at h
    split at h
    · rename_i hn
      cases h
      exact .closeScope hn
    · cases h
  | start method msg context scope =>
    simp only [step] at h
    split at h
    · rename_i hi
      cases h
      cases scope with
      | none => exact .start context hi
      | some n => exact .startIn context n hi
    · cases h
  | call d b =>
    simp only [step] at h
    split at h
    · cases h
    · rename_i k hk
      split at h
      · cases h
      · rename_i hst
        cases h
        exact .call hk (Call.steps_of_step hst)

/-- Where a call comes from: it was there and has not moved, it has just begun, or it has moved. -/
theorem step_calls (h : s.step a = some s') {k' : Call} (hk : s'.calls[c]? = some k') :
    (s.calls[c]? = some k' ∧ ∀ b, a ≠ .call c b) ∨
    (∃ method msg context scope, a = .start method msg context scope ∧ HasInstances s.world msg.type ∧
      c = s.calls.length ∧ k' = begin c method msg context scope ∧ s'.links = s.links) ∨
    ∃ b k, a = .call c b ∧ s.calls[c]? = some k ∧ Call.Steps s.world s.links c k b s'.world s'.links k' := by
  have hbegun : ∀ k, (s.calls ++ [k])[c]? = some k' → s.calls[c]? = some k' ∨ c = s.calls.length ∧ k' = k := by
    intro k hk
    rcases Nat.lt_or_ge c s.calls.length with hlt | hge
    · rw [List.getElem?_append_left hlt] at hk
      exact Or.inl hk
    · rw [List.getElem?_append_right hge, List.getElem?_singleton] at hk
      split at hk
      · cases hk
        exact Or.inr ⟨by omega, rfl⟩
      · cases hk
  cases steps_of_step h with
  | world b => exact Or.inl ⟨hk, fun _ => by simp⟩
  | openScope _ => exact Or.inl ⟨hk, fun _ => by simp⟩
  | closeScope _ => exact Or.inl ⟨hk, fun _ => by simp⟩
  | start context hi =>
    rcases hbegun _ hk with hk | ⟨rfl, rfl⟩
    · exact Or.inl ⟨hk, fun _ => by simp⟩
    · exact Or.inr (Or.inl ⟨_, _, context, none, rfl, hi, rfl, rfl, rfl⟩)
  | startIn context n hi =>
    rcases hbegun _ hk with hk | ⟨rfl, rfl⟩
    · exact Or.inl ⟨hk, fun _ => by simp⟩
    · exact Or.inr (Or.inl ⟨_, _, context, some n, rfl, hi, rfl, rfl, rfl⟩)
  | @call d b k k₁ w links hkd hst =>
    by_cases hcd : d = c
    · subst hcd
      have hlt := (List.getElem?_eq_some_iff.1 hkd).1
      simp only [List.getElem?_set_self hlt, Option.some.injEq] at hk
      subst hk
      exact Or.inr (Or.inr ⟨b, k, rfl, hkd, hst⟩)
    · simp only [List.getElem?_set_ne hcd] at hk
      exact Or.inl ⟨hk, fun b' => by simp [hcd]⟩

/-- A call begins. -/
theorem step_start {msg : Msg} (hi : HasInstances s.world msg.type) (method : Method) (context scope : Option Nat) :
    ∃ s', s.step (.start method msg context scope) = some s' ∧
      s'.calls[s.calls.length]? = some (begin s.calls.length method msg context scope) ∧
      s'.world = s.world ∧ s'.links = s.links := by
  exact ⟨_, if_pos hi, List.getElem?_concat_length, rfl, rfl⟩

/-- A call that can move does. -/
theorem step_call {k k' : Call} {b : CallAct} {w : World} {links : Links} (hk : s.calls[c]? = some k)
    (h : Call.Steps s.world s.links c k b w links k') :
    ∃ s', s.step (.call c b) = some s' ∧ s'.calls[c]? = some k' ∧ s'.world = w ∧ s'.links = links := by
  refine ⟨{ s with world := w, links := links, calls := s.calls.set c k' }, ?_, ?_, rfl, rfl⟩
  · simp only [step, hk, h.step]
  · exact List.getElem?_set_self (List.getElem?_eq_some_iff.1 hk).1

/-- Calls are not removed. -/
theorem calls_length_le (h : s.step a = some s') : s.calls.length ≤ s'.calls.length := by
  cases steps_of_step h with
  | start _ _ => simp
  | startIn _ _ _ => simp
  | call _ _ => simp
  | _ => exact le_rfl

/-- What becomes of a call: it has not moved, or it has taken one of its transitions. -/
theorem step_of_call (h : s.step a = some s') {k : Call} (hk : s.calls[c]? = some k) :
    ∃ k', s'.calls[c]? = some k' ∧ ((k' = k ∧ ∀ b, a ≠ .call c b) ∨
      ∃ b, a = .call c b ∧ Call.Steps s.world s.links c k b s'.world s'.links k') := by
  have hlt := (List.getElem?_eq_some_iff.1 hk).1
  obtain ⟨k', hk'⟩ : ∃ k', s'.calls[c]? = some k' :=
    ⟨_, List.getElem?_eq_getElem (hlt.trans_le (calls_length_le h))⟩
  refine ⟨k', hk', ?_⟩
  rcases step_calls h hk' with ⟨hsame, hne⟩ | ⟨_, _, _, _, -, -, hc, -⟩ | ⟨b, k₁, ha, hk₁, hst⟩
  · rw [hk] at hsame
    cases hsame
    exact Or.inl ⟨rfl, hne⟩
  · -- it is older than the call that begins
    omega
  · rw [hk] at hk₁
    cases hk₁
    exact Or.inr ⟨b, ha, hst⟩

/-- Only `_chain_guards` writes links. -/
theorem step_links (h : s.step a = some s') :
    (s'.links = s.links ∧ ∀ d objs, a ≠ .call d (.chain objs)) ∨ ∃ d head rest e, a = .call d (.chain (head :: rest)) ∧
      s'.links = Chain.linkFrom s.links head rest e := by
  cases steps_of_step h with
  | call _ hst =>
    cases hst with
    | chain _ _ => exact Or.inr ⟨_, _, _, _, rfl, rfl⟩
    | dungling _ hd => exact Or.inl ⟨rfl, fun _ _ => by cases hd <;> simp⟩
    | _ => exact Or.inl ⟨rfl, fun _ _ => by simp⟩
  | _ => exact Or.inl ⟨rfl, fun _ _ => by simp⟩

/-- What the action does to the world, and to the journal. -/
theorem step_world (h : s.step a = some s') :
    (s'.world = s.world ∧ s.entries a = []) ∨
      ∃ b, s'.world = s.world.step b ∧ s.entries a = (s.world.entry b).toList ∧
        (a = .world b ∨ ∃ T, b = .readGuards T) := by
  cases steps_of_step h with
  | world b => exact Or.inr ⟨b, rfl, rfl, Or.inl rfl⟩
  | @call d b k k' w links _ hst =>
    cases hst with
    | unguarded _ _ => exact Or.inr ⟨.readGuards k.msg.type, rfl, rfl, Or.inr ⟨_, rfl⟩⟩
    | guarded _ _ => exact Or.inr ⟨.readGuards k.msg.type, rfl, rfl, Or.inr ⟨_, rfl⟩⟩
    | _ => exact Or.inl ⟨rfl, rfl⟩
  | _ => exact Or.inl ⟨rfl, rfl⟩

/-! ### Runs -/

theorem journal_cons (h : s.step a = some s') (as : List SysAct) :
    s.journal (a :: as) = s.entries a ++ s'.journal as := by
  simp only [journal, h]

theorem journal_append {t : System} {as bs : List SysAct} (h : Run.run step s as = some t) :
    s.journal (as ++ bs) = s.journal as ++ t.journal bs := by
  induction as generalizing s with
  | nil =>
    cases h
    rfl
  | cons a as ih =>
    obtain ⟨u, hu, h⟩ := Run.run_cons.1 h
    rw [List.cons_append, journal_cons hu, journal_cons hu, ih h, List.append_assoc]

variable {bases : Nat → Option Cls × Option Cls} {J : List Entry}

theorem journaled_step (hJ : Journaled bases s.world J) (h : s.step a = some s') :
    Journaled bases s'.world (J ++ s.entries a) := by
  rcases step_world h with ⟨hw, he⟩ | ⟨b, hw, he, -⟩
  · rw [hw, he, List.append_nil]
    exact hJ
  · rw [hw, he]
    exact hJ.step b

/-- What each step that meets `P` keeps, of the journal and the state, holds after a run. -/
theorem keeps_run {I : List Entry → System → Prop} {P : System → SysAct → Prop}
    (hstep : ∀ J s a s', Journaled bases s.world J → P s a → s.step a = some s' → I J s → I (J ++ s.entries a) s')
    {acts : List SysAct} (hJ : Journaled bases s.world J) (hP : Run.Meets step P s acts)
    (h : Run.run step s acts = some s') (hI : I J s) : I (J ++ s.journal acts) s' := by
  induction acts generalizing s J with
  | nil =>
    cases h
    rw [journal, List.append_nil]
    exact hI
  | cons a acts ih =>
    obtain ⟨u, hu, h⟩ := Run.run_cons.1 h
    rw [journal_cons hu, ← List.append_assoc]
    exact ih (journaled_step hJ hu) (hP.2 u hu) h (hstep J s a u hJ hP.1 hu hI)

theorem journaled_run {acts : List SysAct} (hJ : Journaled bases s.world J) (h : Run.run step s acts = some s') :
    Journaled bases s'.world (J ++ s.journal acts) :=
  keeps_run (I := fun J s => Journaled bases s.world J) (P := fun _ _ => True)
    (fun _ _ _ _ _ _ hs hJ => journaled_step hJ hs) hJ (Run.meets_of_forall (fun _ _ => trivial) s acts) h hJ

/-- The maps of the world, after a run from the beginning. -/
theorem journaled_of_run {acts : List SysAct} (h : Run.run step (new bases) acts = some s) :
    Journaled bases s.world ((new bases).journal acts) :=
  journaled_run (journaled_new bases) h

end System

/-! ### Where a call stands -/

/-- What the call has returned. -/
def Phase.returned : Phase → Option Value
  | .done (.ok v) => some v
  | _ => none

theorem Phase.returned_eq_some {p : Phase} {v : Value} : p.returned = some v ↔ p = .done (.ok v) := by
  unfold Phase.returned
  constructor
  · intro h
    split at h
    · cases h
      rfl
    · cases h
  · rintro rfl
    rfl

end Anywise
