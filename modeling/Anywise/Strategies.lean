import Anywise.Lib.Tasks

/-!
# `default_publish` and `concurrent_publish`

Both strategies call every listener with the event and a context.  `default_publish` awaits one listener after the
other and puts an empty proxy in the place of `None`; `concurrent_publish` makes a task of each call and puts an empty
dict in the place of every context that is not true, so a mapping without items does not reach the listeners.
-/

namespace Anywise

open Tasks

/-! ### Contexts -/

/-- The items of a mapping, each value as the object it is. -/
abbrev Contents (K V : Type) := K → Option V

/-- A mapping that a caller passes: `truthy` is what `bool` of it is, `writable` whether its items can be assigned. -/
structure Mapping (K V : Type) where
  contents : Contents K V
  truthy : Bool
  writable : Bool

/-- The object that the listeners get: the caller's own, `MappingProxyType({})` or `{}`. -/
inductive EventContext (K V : Type)
  | caller (m : Mapping K V)
  | mappingProxy
  | dict

section

variable {M K V : Type}

namespace EventContext

def contents : EventContext K V → Contents K V
  | caller m => m.contents
  | mappingProxy | dict => fun _ => none

def writable : EventContext K V → Bool
  | caller m => m.writable
  | mappingProxy => false
  | dict => true

end EventContext

/-! ### Publishing -/

/-- A listener, called with the event and the context, is a coroutine that works on the items of the context. -/
abbrev EventListener (M K V : Type) := M → EventContext K V → Prog (Contents K V)

/-- A strategy at work: the context that it hands on, whether it awaits each listener before it calls the next, and
the calls of the listeners. -/
structure Publish (M K V : Type) where
  context : EventContext K V
  sequential : Bool
  calls : Pool (M × EventContext K V) (Contents K V)

/-- The call of each listener. -/
def callListeners (sequential : Bool) (message : M) (context : EventContext K V)
    (listeners : List (EventListener M K V)) : Publish M K V where
  context := context
  sequential := sequential
  calls := .new context.contents (listeners.map fun listener => ((message, context), listener message context))

def defaultPublish (message : M) (context : Option (Mapping K V)) (listeners : List (EventListener M K V)) :
    Publish M K V :=
  let context : EventContext K V :=
    match context with
    | none => .mappingProxy
    | some context => .caller context
  callListeners true message context listeners

def concurrentPublish (msg : M) (context : Option (Mapping K V)) (subscribers : List (EventListener M K V)) :
    Publish M K V :=
  let context : EventContext K V :=
    match context with
    | none => .dict
    | some context => if context.truthy then .caller context else .dict
  callListeners false msg context subscribers

namespace Publish

def run (p : Publish M K V) (acts : List Act) : Option (Pool (M × EventContext K V) (Contents K V)) :=
  Run.run (Pool.step p.context.writable p.sequential) p.calls acts

/-- The listeners return normally: none of them raises, in whatever order they run. -/
def Calm (p : Publish M K V) : Prop := p.calls.Calm p.context.writable p.sequential

/-- What a listener is given for the context of the caller: this very object, or an empty mapping for `None`. -/
def Given (context : Option (Mapping K V)) (c : EventContext K V) : Prop :=
  match context with
  | none => c.contents = fun _ => none
  | some m => c = .caller m

/-- In whatever order the listeners run: each of the `n` is called at most once, with the event and the context; every
run can go on until all have returned, and then each has been called. -/
structure Delivers (p : Publish M K V) (message : M) (context : Option (Mapping K V)) (n : Nat) : Prop where
  args : ∀ acts t, p.run acts = some t → ∀ i m c, (i, m, c) ∈ t.begun → m = message ∧ Given context c
  once : ∀ acts t, p.run acts = some t → (t.begun.map Prod.fst).Nodup
  completes : ∀ acts t, p.run acts = some t →
    ∃ acts' t', Run.run (Pool.step p.context.writable p.sequential) t acts' = some t' ∧ t'.Complete
  all : ∀ acts t, p.run acts = some t → t.Complete → (t.begun.map Prod.fst).Perm (List.range n)

end Publish

/-! ### The calls of the listeners -/

section

variable {sequential : Bool} {message : M} {context : EventContext K V} {listeners : List (EventListener M K V)}
  {acts : List Act} {t : Pool (M × EventContext K V) (Contents K V)}

theorem callListeners_labels (h : (callListeners sequential message context listeners).run acts = some t) :
    t.tasks.map Task.label = listeners.map fun _ => (message, context) := by
  rw [Pool.labels_run h, callListeners, Pool.new, List.map_map, List.map_map]
  rfl

theorem callListeners_once (h : (callListeners sequential message context listeners).run acts = some t) : t.Once :=
  Pool.once_run (Pool.once_new _ _) h

/-- Every call is that of a listener, with the event and the context. -/
theorem callListeners_begun (h : (callListeners sequential message context listeners).run acts = some t) {i : Nat}
    {m : M} {c : EventContext K V} (hb : (i, m, c) ∈ t.begun) : listeners ≠ [] ∧ m = message ∧ c = context := by
  obtain ⟨u, hu, hl, -⟩ := ((callListeners_once h).mem i (m, c)).1 hb
  have hmem : u.label ∈ t.tasks.map Task.label := List.mem_map_of_mem (List.mem_of_getElem? hu)
  rw [callListeners_labels h, List.mem_map] at hmem
  obtain ⟨l, hmem, heq⟩ := hmem
  rw [hl] at heq
  cases heq
  exact ⟨List.ne_nil_of_mem hmem, rfl, rfl⟩

/-- When all listeners have returned each has been called. -/
theorem callListeners_perm (h : (callListeners sequential message context listeners).run acts = some t)
    (hc : t.Complete) : (t.begun.map Prod.fst).Perm (List.range listeners.length) := by
  have hperm := ((callListeners_once h).perm hc).map Prod.fst
  rwa [callListeners_labels h, List.map_map, show Prod.fst ∘ Prod.swap = (Prod.snd : _ × Nat → Nat) from rfl,
    List.zipIdx_map_snd, List.length_map, ← List.range_eq_range'] at hperm

theorem callListeners_completes (hcalm : (callListeners sequential message context listeners).Calm)
    (h : (callListeners sequential message context listeners).run acts = some t) :
    ∃ acts' t', Run.run (Pool.step context.writable sequential) t acts' = some t' ∧ t'.Complete :=
  Pool.completes (Pool.Calm.run hcalm h) (Pool.kept_run hcalm (Pool.kept_new _ _) h)

/-- Listeners that return, whatever they find in the context, make calm calls. -/
theorem callListeners_calm (h : ∀ l ∈ listeners, (l message context).Returns context.writable) :
    (callListeners sequential message context listeners).Calm := by
  refine Pool.calm_new fun t ht => ?_
  obtain ⟨l, hl, rfl⟩ := List.mem_map.1 ht
  exact h l hl

/-- The calls deliver exactly when they are made with the right context, or nobody listens. -/
theorem callListeners_delivers_iff (arg : Option (Mapping K V))
    (hcalm : (callListeners sequential message context listeners).Calm) :
    (callListeners sequential message context listeners).Delivers message arg listeners.length ↔
      Publish.Given arg context ∨ listeners = [] := by
  constructor
  · intro h
    by_cases hne : listeners = []
    · exact Or.inr hne
    · obtain ⟨acts, t, hrun, hc⟩ := h.completes [] _ rfl
      have hlt : 0 ∈ List.range listeners.length := List.mem_range.2 (List.length_pos_iff.2 hne)
      obtain ⟨⟨i, m, c⟩, hb, -⟩ := List.mem_map.1 ((h.all acts t hrun hc).mem_iff.2 hlt)
      have hgiven := (h.args acts t hrun i m c hb).2
      rw [(callListeners_begun hrun hb).2.2] at hgiven
      exact Or.inl hgiven
  · intro hgiven
    refine ⟨fun acts t h i m c hb => ?_, fun acts t h => (callListeners_once h).nodup,
      fun acts t h => callListeners_completes hcalm h, fun acts t h hc => callListeners_perm h hc⟩
    obtain ⟨hne, rfl, rfl⟩ := callListeners_begun h hb
    exact ⟨rfl, hgiven.resolve_right hne⟩

end

/-! ### Both strategies -/

/-- `default_publish` has called the first listeners of the list, in its order. -/
theorem defaultPublish_order {message : M} {context : Option (Mapping K V)} {listeners : List (EventListener M K V)}
    {acts : List Act} {t : Pool (M × EventContext K V) (Contents K V)}
    (h : (defaultPublish message context listeners).run acts = some t) :
    ∃ n, t.begun.map Prod.fst = List.range n := by
  obtain ⟨n, hn⟩ := Pool.inOrder_run (Pool.inOrder_new _ _) h
  exact ⟨n, hn.begun⟩

/-- The two strategies deliver the same to listeners that return normally exactly when the context is `None` or true,
or nobody listens. -/
theorem publish_strategies_iff (message : M) (context : Option (Mapping K V)) (listeners : List (EventListener M K V))
    (hd : (defaultPublish message context listeners).Calm)
    (hc : (concurrentPublish message context listeners).Calm) :
    ((defaultPublish message context listeners).Delivers message context listeners.length ∧
        (concurrentPublish message context listeners).Delivers message context listeners.length) ↔
      (∀ m, context = some m → m.truthy = true) ∨ listeners = [] := by
  have hdefault : (defaultPublish message context listeners).Delivers message context listeners.length := by
    refine (callListeners_delivers_iff context hd).2 (Or.inl ?_)
    cases context with
    | none | some m => rfl
  have hconcurrent := callListeners_delivers_iff context hc
  constructor
  · rintro ⟨-, h⟩
    refine (hconcurrent.1 h).imp_left fun hgiven m hm => ?_
    subst hm
    have hgiven' : (if m.truthy = true then EventContext.caller m else .dict) = .caller m := hgiven
    by_cases ht : m.truthy = true
    · exact ht
    · rw [if_neg ht] at hgiven'
      cases hgiven'
  · intro h
    refine ⟨hdefault, hconcurrent.2 (h.imp_left fun htruthy => ?_)⟩
    cases context with
    | none => rfl
    | some m =>
      show (if m.truthy = true then EventContext.caller m else .dict) = .caller m
      rw [if_pos (htruthy m rfl)]

end

namespace TenantEvents

/-- Reads the context, awaits the mail and returns; it stops when it is cancelled. -/
def notifyUser : EventListener String String String :=
  fun _ _ => .read fun _ => .pause fun cancelled => if cancelled then .raise else .ret

/-- `{}` -/
def emptyContext : Mapping String String := ⟨fun _ => none, false, true⟩

/-- `{"tenant": "acme"}` -/
def tenantContext : Mapping String String := ⟨fun k => if k = "tenant" then some "acme" else none, true, true⟩

private theorem notifyUser_calm (sequential : Bool) (context : EventContext String String) (n : Nat) :
    (callListeners sequential "UserCreated" context (List.replicate n notifyUser)).Calm := by
  refine callListeners_calm fun l hl => ?_
  rw [List.eq_of_mem_replicate hl]
  exact fun _ => trivial

theorem tenant_delivered :
    (defaultPublish "UserCreated" (some tenantContext) [notifyUser, notifyUser]).Delivers "UserCreated"
        (some tenantContext) 2 ∧
      (concurrentPublish "UserCreated" (some tenantContext) [notifyUser, notifyUser]).Delivers "UserCreated"
        (some tenantContext) 2 :=
  (publish_strategies_iff _ _ [notifyUser, notifyUser] (notifyUser_calm true _ 2) (notifyUser_calm false _ 2)).2
    (Or.inl fun m hm => (by cases hm; rfl))

/-- The caller's empty dict does not reach the listener. -/
theorem empty_context_replaced :
    (defaultPublish "UserCreated" (some emptyContext) [notifyUser]).Calm ∧
      (concurrentPublish "UserCreated" (some emptyContext) [notifyUser]).Calm ∧
      ¬((defaultPublish "UserCreated" (some emptyContext) [notifyUser]).Delivers "UserCreated" (some emptyContext) 1 ∧
        (concurrentPublish "UserCreated" (some emptyContext) [notifyUser]).Delivers "UserCreated"
          (some emptyContext) 1) := by
  refine ⟨notifyUser_calm true _ 1, notifyUser_calm false _ 1, fun h => ?_⟩
  have hgiven := (h.2.args [.start 0] _ rfl 0 "UserCreated" .dict (List.mem_singleton.2 rfl)).2
  cases hgiven

end TenantEvents

end Anywise
