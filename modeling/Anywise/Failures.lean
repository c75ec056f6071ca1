import Anywise.Strategies

/-!
# Listeners that raise

`default_publish` ends with the first listener that raises, and calls none after it.  The task group of
`concurrent_publish` tells the other listeners to stop and waits until all have ended; a listener that is told to stop
before it has begun is never called.  With both strategies every publish can be brought to its end and none goes on for
ever (`default_publish_ends`, `concurrent_publish_ends`).
-/

namespace Anywise

open Tasks

section

variable {M K V : Type} {message : M} {context : Option (Mapping K V)} {listeners : List (EventListener M K V)}
  {acts : List Act} {t : Pool (M × EventContext K V) (Contents K V)}

namespace Publish

/-- The publish goes on to `t'`. -/
def Continues (p : Publish M K V) (t t' : Pool (M × EventContext K V) (Contents K V)) : Prop :=
  ∃ acts, Run.run (Pool.step p.context.writable p.sequential) t acts = some t'

/-- No listener can go on and none is still to be called. -/
def Ended (p : Publish M K V) (t : Pool (M × EventContext K V) (Contents K V)) : Prop :=
  t.Ended p.context.writable p.sequential

/-- From `t` the publish does not go on for ever, whatever its listeners do, and can always be brought to an end.  Each
listener is taken to come to an end by itself. -/
structure Ends (p : Publish M K V) (t : Pool (M × EventContext K V) (Contents K V)) : Prop where
  finite : Acc (fun t'' t' => ∃ a, Pool.step p.context.writable p.sequential t' a = some t'') t
  reaches : ∃ t', p.Continues t t' ∧ p.Ended t'

theorem ends (p : Publish M K V) (t : Pool (M × EventContext K V) (Contents K V)) : p.Ends t where
  finite := (Pool.step_wellFounded p.context.writable p.sequential).apply t
  reaches := by
    obtain ⟨acts, t', hrun, hend⟩ := Pool.ends t
    exact ⟨t', ⟨acts, hrun⟩, hend⟩

end Publish

/-- The calls of the listeners that were called are those in the list of the begun. -/
theorem callListeners_mem_begun {sequential : Bool} {context : EventContext K V}
    (h : (callListeners sequential message context listeners).run acts = some t) {i : Nat}
    {u : Task (M × EventContext K V) (Contents K V)} (hu : t.tasks[i]? = some u) :
    i ∈ t.begun.map Prod.fst ↔ u.status.isBegun = true := by
  rw [List.mem_map]
  constructor
  · rintro ⟨⟨j, l⟩, hj, rfl⟩
    obtain ⟨v, hv, -, hb⟩ := ((callListeners_once h).mem j l).1 hj
    rw [hu] at hv
    cases hv
    exact hb
  · intro hb
    exact ⟨(i, u.label), ((callListeners_once h).mem i u.label).2 ⟨u, hu, rfl, hb⟩, rfl⟩

/-! ### One listener after the other -/

/-- The listener that raised, if any, is the last that was called; all before it have returned, and nothing happens any
more.  An end without a failure is one in which all listeners were called, in order, and have returned. -/
theorem default_publish_ends (h : (defaultPublish message context listeners).run acts = some t) :
    (defaultPublish message context listeners).Ends t ∧
      (∀ i u, t.tasks[i]? = some u → u.status = .raised →
        t.begun.map Prod.fst = List.range (i + 1) ∧ (∀ v ∈ t.tasks.take i, v.status.isReturned = true) ∧
          (defaultPublish message context listeners).Ended t) ∧
      ((defaultPublish message context listeners).Ended t → ¬t.Failed →
        t.Complete ∧ t.begun.map Prod.fst = List.range listeners.length) := by
  obtain ⟨n, hn⟩ := Pool.front_run (Pool.front_new _ _) h
  refine ⟨Publish.ends _ t, fun i u hu hr => ?_, fun hend hno => ?_⟩
  · obtain ⟨rfl, hend⟩ := hn.stops hu hr
    refine ⟨hn.order.begun, fun v hv => ?_, hend⟩
    obtain ⟨j, hj⟩ := List.mem_iff_getElem?.1 hv
    have hji : j < i := (List.getElem?_eq_some_iff.1 hj).1.trans_le (List.length_take_le i t.tasks)
    rw [List.getElem?_take_of_lt hji] at hj
    exact hn.before j v hj (Nat.succ_lt_succ hji)
  · have hc := (hn.ended hend).resolve_right hno
    have hperm := (callListeners_perm h hc).length_eq
    rw [hn.order.begun, List.length_range, List.length_range] at hperm
    rw [hn.order.begun, hperm]
    exact ⟨hc, rfl⟩

/-! ### All listeners at once -/

/-- Each listener is called at most once, and one that has not been called when the publish has ended was told to stop
before it began, because another had raised.  An end without a failure is one in which all listeners were called and
have returned. -/
theorem concurrent_publish_ends (h : (concurrentPublish message context listeners).run acts = some t) :
    (concurrentPublish message context listeners).Ends t ∧ (t.begun.map Prod.fst).Nodup ∧
      ((∃ u ∈ t.tasks, u.status = .cancelled) → t.Failed) ∧
      ((concurrentPublish message context listeners).Ended t →
        (∀ u ∈ t.tasks, u.status = .returned ∨ u.status = .raised ∨ u.status = .cancelled) ∧
          (∀ i u, t.tasks[i]? = some u → (i ∈ t.begun.map Prod.fst ↔ u.status ≠ .cancelled)) ∧
          (¬t.Failed → t.Complete ∧ (t.begun.map Prod.fst).Perm (List.range listeners.length))) := by
  have hcancelled := Pool.cancelledByFailure_run _ _ h
  refine ⟨Publish.ends _ t, (callListeners_once h).nodup, hcancelled, fun hend => ?_⟩
  have hall : ∀ u ∈ t.tasks, u.status = .returned ∨ u.status = .raised ∨ u.status = .cancelled :=
    fun u hu => Pool.ended_of_concurrent hend hu
  refine ⟨hall, fun i u hu => ?_, fun hno => ?_⟩
  · rw [callListeners_mem_begun h hu]
    rcases hall u (List.mem_of_getElem? hu) with hs | hs | hs <;> rw [hs] <;> simp [Status.isBegun]
  · have hc : t.Complete := by
      intro u hu
      rcases hall u hu with hs | hs | hs
      · rw [hs]
        rfl
      · exact absurd ⟨u, hu, by rw [hs]; rfl⟩ hno
      · exact absurd (hcancelled ⟨u, hu, hs⟩) hno
    exact ⟨hc, callListeners_perm h hc⟩

end

namespace TenantEvents

/-- It raises when it is called. -/
def failing : EventListener String String String := fun _ _ => .raise

/-- The third listener is not called. -/
theorem failing_stops_default : ∃ t,
    (defaultPublish "UserCreated" none [notifyUser, failing, notifyUser]).run [.start 0, .resume 0, .start 1] = some t ∧
      t.begun.map Prod.fst = [0, 1] ∧
        (defaultPublish "UserCreated" none [notifyUser, failing, notifyUser]).Ended t := by
  obtain ⟨t, hrun, u, hu, hr⟩ : ∃ t, (defaultPublish "UserCreated" none [notifyUser, failing, notifyUser]).run
      [.start 0, .resume 0, .start 1] = some t ∧ ∃ u, t.tasks[1]? = some u ∧ u.status = .raised :=
    ⟨_, rfl, _, rfl, rfl⟩
  obtain ⟨hbegun, -, hend⟩ := (default_publish_ends hrun).2.1 1 u hu hr
  exact ⟨t, hrun, hbegun, hend⟩

/-- The first listener is told to stop while it waits, the third before it has begun. -/
theorem failing_stops_concurrent : ∃ t,
    (concurrentPublish "UserCreated" none [notifyUser, failing, notifyUser]).run
        [.start 0, .start 1, .cancel 2, .cancel 0] = some t ∧ t.Failed := by
  obtain ⟨t, hrun, u, hu, hc⟩ : ∃ t, (concurrentPublish "UserCreated" none [notifyUser, failing, notifyUser]).run
      [.start 0, .start 1, .cancel 2, .cancel 0] = some t ∧ ∃ u, t.tasks[2]? = some u ∧ u.status = .cancelled :=
    ⟨_, rfl, _, rfl, rfl⟩
  exact ⟨t, hrun, (concurrent_publish_ends hrun).2.2.1 ⟨u, List.mem_of_getElem? hu, hc⟩⟩

end TenantEvents

end Anywise
