import Anywise.Strategies
import Mathlib.Logic.Function.Basic

/-!
# Listeners and the context they share

All listeners of a publish get one context object.  What keeps them from each other is that this object cannot be
written: `default_publish` makes such an object only in the place of `None`, and `concurrent_publish` never does
(`isolates_iff`).
-/

namespace Anywise

open Tasks

section

variable {M K V : Type}

/-- The contents that the caller supplies: none for `None`. -/
def supplied : Option (Mapping K V) → Contents K V
  | none => fun _ => none
  | some m => m.contents

namespace Publish

/-- What the caller's mapping `m` holds when the calls have come to `t`: it is touched only if the listeners got it. -/
def callerContents (p : Publish M K V) (m : Mapping K V)
    (t : Pool (M × EventContext K V) (Contents K V)) : Contents K V :=
  match p.context with
  | .caller _ => t.cell
  | .mappingProxy | .dict => m.contents

/-- In whatever order the listeners run, each sees what the caller supplied, and the caller's mapping stays as it is. -/
structure Isolated (p : Publish M K V) (context : Option (Mapping K V)) : Prop where
  observes : ∀ acts t, p.run acts = some t → ∀ i s, .saw i s ∈ t.log → s = supplied context
  unchanged : ∀ acts t, p.run acts = some t → ∀ m, context = some m → p.callerContents m t = m.contents

end Publish

inductive PublishStrategy
  | defaultPublish
  | concurrentPublish
deriving DecidableEq

namespace PublishStrategy

def publish : PublishStrategy → M → Option (Mapping K V) → List (EventListener M K V) → Publish M K V
  | defaultPublish => Anywise.defaultPublish
  | concurrentPublish => Anywise.concurrentPublish

/-- The listeners get an object that cannot be written. -/
def Protects : PublishStrategy → Option (Mapping K V) → Prop
  | defaultPublish, none => True
  | defaultPublish, some m => m.writable = false
  | concurrentPublish, none => False
  | concurrentPublish, some m => m.truthy = true ∧ m.writable = false

/-- The listeners get what the caller supplied, and leave it as it is. -/
def LeftAlone (strategy : PublishStrategy) (message : M) (arg : Option (Mapping K V))
    (listeners : List (EventListener M K V)) : Prop :=
  let context := (strategy.publish message arg listeners).context
  context.contents = supplied arg ∧ ∀ l ∈ listeners, (l message context).Quiet context.writable context.contents

section

variable (strategy : PublishStrategy) (message : M) (arg : Option (Mapping K V)) (listeners : List (EventListener M K V))

theorem publish_eq : ∃ sequential, strategy.publish message arg listeners =
    callListeners sequential message (strategy.publish message arg listeners).context listeners := by
  cases strategy with
  | defaultPublish => exact ⟨true, rfl⟩
  | concurrentPublish => exact ⟨false, rfl⟩

theorem protects_iff :
    strategy.Protects arg ↔ (strategy.publish message arg listeners).context.writable = false := by
  cases strategy with
  | defaultPublish =>
    cases arg with
    | none => exact iff_of_true trivial rfl
    | some m => exact Iff.rfl
  | concurrentPublish =>
    cases arg with
    | none => exact iff_of_false id (fun h => (by cases h))
    | some m =>
      show m.truthy = true ∧ m.writable = false ↔
        (if m.truthy = true then EventContext.caller m else .dict).writable = false
      by_cases ht : m.truthy = true
      · rw [if_pos ht]
        exact and_iff_right ht
      · rw [if_neg ht]
        exact iff_of_false (fun h => ht h.1) (fun h => (by cases h))

variable {strategy arg} in
theorem Protects.contents (h : strategy.Protects arg) :
    (strategy.publish message arg listeners).context.contents = supplied arg := by
  cases strategy with
  | defaultPublish =>
    cases arg with
    | none | some m => rfl
  | concurrentPublish =>
    cases arg with
    | none => exact h.elim
    | some m =>
      show (if m.truthy = true then EventContext.caller m else .dict).contents = m.contents
      rw [if_pos h.1]
      rfl

end

end PublishStrategy

/-! ### Quiet listeners -/

/-- Listeners that leave the context as they find it do not disturb each other. -/
theorem callListeners_isolated {sequential : Bool} {message : M} {context : EventContext K V}
    {listeners : List (EventListener M K V)} {arg : Option (Mapping K V)} (hc : context.contents = supplied arg)
    (hq : ∀ l ∈ listeners, (l message context).Quiet context.writable context.contents) :
    (callListeners sequential message context listeners).Isolated arg := by
  have hstill : ∀ acts t, (callListeners sequential message context listeners).run acts = some t →
      t.Still context.writable context.contents := by
    intro acts t h
    refine Pool.still_run (Pool.still_new fun u hu => ?_) h
    obtain ⟨l, hl, rfl⟩ := List.mem_map.1 hu
    exact hq l hl
  refine ⟨fun acts t h i s hs => ((hstill acts t h).seen i s hs).trans hc, fun acts t h m hm => ?_⟩
  subst hm
  rw [Publish.callerContents]
  split
  case h_1 => exact (hstill acts t h).cell.trans hc
  case h_2 | h_3 => rfl

namespace PublishStrategy

variable {strategy : PublishStrategy} {arg : Option (Mapping K V)} {message : M} {listeners : List (EventListener M K V)}

theorem LeftAlone.isolated (h : strategy.LeftAlone message arg listeners) :
    (strategy.publish message arg listeners).Isolated arg := by
  obtain ⟨sequential, heq⟩ := strategy.publish_eq message arg listeners
  rw [heq]
  exact callListeners_isolated h.1 h.2

/-- What cannot be written is left alone. -/
theorem Protects.leftAlone (h : strategy.Protects arg) (message : M) (listeners : List (EventListener M K V)) :
    strategy.LeftAlone message arg listeners := by
  refine ⟨h.contents message listeners, fun l _ => ?_⟩
  rw [(strategy.protects_iff message arg listeners).1 h]
  exact Prog.quiet_unwritable _ _

end PublishStrategy

/-! ### Listeners that write -/

variable [DecidableEq K] [Inhabited K] [Inhabited V]

/-- Removes an item, or adds one. -/
def toggleItem (s : Contents K V) : Contents K V :=
  Function.update s default (if (s default).isSome then none else some default)

theorem toggleItem_ne (s : Contents K V) : toggleItem s ≠ s := by
  intro h
  have hd : (if (s default).isSome then none else some default) = s default :=
    (Function.update_self (default : K) _ s).symm.trans (congrFun h default)
  cases hs : s default with
  | none | some v =>
    rw [hs] at hd
    cases hd

/-- Tries to write to the context. -/
def writer : EventListener M K V := fun _ _ => .write toggleItem fun _ => .ret

def reader : EventListener M K V := fun _ _ => .read fun _ => .ret

/-- A context that can be written does not isolate: the last listener sees what the one before it wrote. -/
theorem not_isolated_of_writable {sequential : Bool} {message : M} {context : EventContext K V}
    (hw : context.writable = true) (arg : Option (Mapping K V)) :
    ¬(callListeners sequential message context [reader, writer, reader]).Isolated arg := by
  intro h
  have hrun : ∃ t, (callListeners sequential message context [reader, writer, reader]).run
      [.start 0, .start 1, .start 2] = some t ∧
      t.log = [.begun 0 (message, context), .saw 0 context.contents, .begun 1 (message, context),
        .begun 2 (message, context), .saw 2 (toggleItem context.contents)] := by
    rw [Publish.run, show (callListeners sequential message context [reader, writer, reader]).context.writable = true
      from hw]
    cases sequential with
    | false | true => exact ⟨_, rfl, rfl⟩
  obtain ⟨t, ht, hlog⟩ := hrun
  have h0 := h.observes _ t ht 0 context.contents (by simp [hlog])
  have h2 := h.observes _ t ht 2 (toggleItem context.contents) (by simp [hlog])
  exact toggleItem_ne context.contents (h2.trans h0.symm)

/-! ### Both strategies -/

/-- A strategy keeps all listeners from each other exactly when it hands on what cannot be written; otherwise it is up
to the listeners to leave the context as it is.  The values in a context are compared as objects: what a listener does
inside one of them is not a write to the context. -/
theorem isolates_iff (strategy : PublishStrategy) (message : M) (context : Option (Mapping K V)) :
    ((∀ listeners, (strategy.publish message context listeners).Isolated context) ↔ strategy.Protects context) ∧
      ∀ listeners, strategy.LeftAlone message context listeners →
        (strategy.publish message context listeners).Isolated context := by
  refine ⟨⟨fun h => ?_, fun h listeners => (h.leftAlone message listeners).isolated⟩,
    fun listeners h => h.isolated⟩
  obtain ⟨sequential, heq⟩ := strategy.publish_eq message context [reader, writer, reader]
  rw [strategy.protects_iff message context [reader, writer, reader], ← Bool.not_eq_true]
  intro hw
  have hiso := h [reader, writer, reader]
  rw [heq] at hiso
  exact not_isolated_of_writable hw context hiso

end

namespace TenantEvents

/-- `context["tenant"] = "globex"` -/
def renameTenant : EventListener String String String :=
  fun _ _ => .write (fun s => Function.update s "tenant" (some "globex")) fun written => if written then .ret else .raise

theorem readers_isolated : (PublishStrategy.concurrentPublish.publish "UserCreated" (some tenantContext)
    [notifyUser, notifyUser]).Isolated (some tenantContext) := by
  refine (isolates_iff .concurrentPublish "UserCreated" (some tenantContext)).2 [notifyUser, notifyUser] ⟨rfl, ?_⟩
  intro l hl
  rw [List.eq_of_mem_replicate (n := 2) hl]
  intro cancelled
  cases cancelled with
  | false | true => trivial

/-- The dict of the caller is written by the first listener and read by the second. -/
theorem tenant_overwritten :
    ¬(defaultPublish "UserCreated" (some tenantContext) [renameTenant, notifyUser]).Isolated (some tenantContext) ∧
      ¬(concurrentPublish "UserCreated" (some tenantContext) [renameTenant, notifyUser]).Isolated
        (some tenantContext) ∧
      ¬(concurrentPublish "UserCreated" none [renameTenant, notifyUser]).Isolated none := by
  refine ⟨fun h => ?_, fun h => ?_, fun h => ?_⟩
  all_goals
    have hseen := h.observes [.start 0, .start 1] _ rfl 1 _ (.tail _ (.tail _ (.head _)))
    have htenant := congrFun hseen "tenant"
    revert htenant
    decide

end TenantEvents

end Anywise
