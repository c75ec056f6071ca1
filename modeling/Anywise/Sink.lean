import Anywise.Lib.Channel

/-!
# `Anywise.sink`

`Anywise.sink` hands an event, or a sequence of them, to the sink it was built with; without one the attribute error of
`None` becomes a `SinkUnsetError`.  `InMemorySink` puts the events one by one into an `asyncio` queue of its volume,
where a volume that is not positive is no bound, and waits while the queue is full.  Calls run concurrently with each
other and with those that take from the queue, and a call may be cancelled.
-/

namespace Anywise

/-! ### Sinks and calls -/

/-- The argument of `sink`. -/
inductive Payload (E : Type)
  | event (event : E)
  | sequence (events : List E)

def Payload.events {E : Type} : Payload E → List E
  | .event e => [e]
  | .sequence es => es

structure InMemorySink where
  volume : Int := 100

/-- The bound of its queue. -/
def InMemorySink.capacity (sink : InMemorySink) : Option Nat :=
  if 0 < sink.volume then some sink.volume.toNat else none

/-- The queue with the calls of `sink`, numbered in order, and the calls that raised a `SinkUnsetError`. -/
structure Sinking (E : Type) where
  queue : Channel.State E
  unset : List Nat

inductive SinkAct (E : Type)
  /-- `anywise.sink(payload)` -/
  | sink (payload : Payload E)
  /-- a call starts, or goes on after it has waited for the queue -/
  | resume (i : Nat)
  /-- someone takes an event from `sink.queue` -/
  | get
  | cancel (i : Nat)

namespace Sinking

section

variable {E : Type}

def new : Sinking E := ⟨Channel.new, []⟩

/-- What an action is for the queue. -/
def queueAct : SinkAct E → Channel.Act E
  | .sink payload => .call payload.events
  | .resume i => .go i
  | .get => .take
  | .cancel i => .stop i

/-- `self._sink` is `None`: a call raises as soon as it starts. -/
def stepUnset (s : Sinking E) : SinkAct E → Option (Sinking E)
  | .sink payload => some { s with queue.producers := s.queue.producers ++ [⟨[], payload.events, false⟩] }
  | .resume i =>
    match s.queue.producers[i]? with
    | some call => if call.stopped ∨ i ∈ s.unset then none else some { s with unset := s.unset ++ [i] }
    | none => none
  | .get => none
  | .cancel i =>
    match s.queue.producers[i]? with
    | some call =>
      if call.stopped ∨ i ∈ s.unset then none
      else some { s with queue.producers := s.queue.producers.set i { call with stopped := true } }
    | none => none

def step (sink : Option InMemorySink) (s : Sinking E) (a : SinkAct E) : Option (Sinking E) :=
  match sink with
  | some sink => (Channel.step sink.capacity s.queue (queueAct a)).map fun queue => { s with queue := queue }
  | none => s.stepUnset a

/-- The payloads of the calls. -/
def payloads (acts : List (SinkAct E)) : List (Payload E) :=
  acts.filterMap fun a =>
    match a with
    | .sink payload => some payload
    | _ => none

/-- Call number `i` has put all its events into the queue. -/
def Returned (s : Sinking E) (i : Nat) : Prop :=
  ∃ call, s.queue.producers[i]? = some call ∧ call.stopped = false ∧ call.put = call.batch

variable {sink : InMemorySink} {s s' : Sinking E} {a : SinkAct E} {acts : List (SinkAct E)} {i : Nat}

/-! ### With a sink -/

theorem capacity_eq_some {n : Nat} : sink.capacity = some n ↔ 0 < sink.volume ∧ sink.volume = n := by
  rw [InMemorySink.capacity]
  split
  · rename_i h
    rw [Option.some.injEq]
    omega
  · rename_i h
    constructor
    · intro h'
      cases h'
    · intro h'
      exact absurd h'.1 h

theorem run_set : Run.run (step (some sink)) s acts =
    (Run.run (Channel.step sink.capacity) s.queue (acts.map queueAct)).map fun queue => { s with queue := queue } := by
  induction acts generalizing s with
  | nil => rfl
  | cons a acts ih =>
    rw [Run.run, List.map_cons, Run.run, step]
    cases Channel.step sink.capacity s.queue (queueAct a) with
    | none => rfl
    | some queue =>
      rw [Option.map_some, Option.bind_some, Option.bind_some, ih]

theorem run_queue (hrun : Run.run (step (some sink)) s acts = some s') :
    Run.run (Channel.step sink.capacity) s.queue (acts.map queueAct) = some s'.queue ∧ s'.unset = s.unset := by
  rw [run_set, Option.map_eq_some_iff] at hrun
  obtain ⟨queue, hq, rfl⟩ := hrun
  exact ⟨hq, rfl⟩

theorem batches_queueAct (acts : List (SinkAct E)) :
    Channel.batches (acts.map queueAct) = (payloads acts).map Payload.events := by
  rw [Channel.batches, payloads, List.filterMap_map, List.map_filterMap]
  congr 1
  funext a
  cases a <;> rfl

/-! ### Without a sink -/

/-- Nothing is in the queue or was, and no call has put anything. -/
structure Untouched (payloads : List (Payload E)) (s : Sinking E) : Prop where
  items : s.queue.items = []
  taken : s.queue.taken = []
  log : s.queue.log = []
  put : ∀ call ∈ s.queue.producers, call.put = []
  calls : s.queue.producers.map Channel.Producer.batch = payloads.map Payload.events

theorem untouched_step {ps : List (Payload E)} (hs : Untouched ps s) (h : step none s a = some s') :
    Untouched (ps ++ payloads [a]) s' := by
  cases a with
  | sink payload =>
    cases h
    refine ⟨hs.items, hs.taken, hs.log, fun call hc => ?_, ?_⟩
    · rcases List.mem_append.1 hc with hc | hc
      · exact hs.put call hc
      · cases List.mem_singleton.1 hc
        rfl
    · rw [List.map_append, hs.calls, List.map_append]
      rfl
  | resume i =>
    simp only [step, stepUnset] at h
    split at h
    · split at h
      · cases h
      · cases h
        rw [show payloads [SinkAct.resume i] = ([] : List (Payload E)) from rfl, List.append_nil]
        exact ⟨hs.items, hs.taken, hs.log, hs.put, hs.calls⟩
    · cases h
  | get => cases h
  | cancel i =>
    simp only [step, stepUnset] at h
    split at h
    · rename_i call hcall
      split at h
      · cases h
      · cases h
        rw [show payloads [SinkAct.cancel i] = ([] : List (Payload E)) from rfl, List.append_nil]
        refine ⟨hs.items, hs.taken, hs.log, fun q hq => ?_, ?_⟩
        · rcases List.mem_or_eq_of_mem_set hq with hq | rfl
          · exact hs.put q hq
          · exact hs.put call (List.mem_of_getElem? hcall)
        · -- a cancelled call keeps its payload
          obtain ⟨hlt, rfl⟩ := List.getElem?_eq_some_iff.1 hcall
          have hlt' : i < (s.queue.producers.map Channel.Producer.batch).length := by rwa [List.length_map]
          have hself := List.set_getElem_self hlt'
          rw [List.getElem_map] at hself
          rw [← hs.calls, List.map_set]
          exact hself
    · cases h

theorem untouched_run {ps : List (Payload E)} (hs : Untouched ps s) (hrun : Run.run (step none) s acts = some s') :
    Untouched (ps ++ payloads acts) s' := by
  induction acts generalizing s ps with
  | nil =>
    cases hrun
    rwa [payloads, List.filterMap_nil, List.append_nil]
  | cons a acts ih =>
    obtain ⟨t, ht, hrun⟩ := Run.run_cons.1 hrun
    have h := ih (untouched_step hs ht) hrun
    rwa [List.append_assoc, payloads, payloads, ← List.filterMap_append, List.singleton_append] at h

/-! ### Every run -/

/-- What holds after the calls with the given payloads: the queue is within the volume of the sink; the events that were
taken, followed by those that are queued, are those that were put, in this order; those of one call are the beginning of
its payload, in its order; a `SinkUnsetError` is raised only without a sink, and then nothing is ever put. -/
structure Kept (sink : Option InMemorySink) (payloads : List (Payload E)) (s : Sinking E) : Prop where
  bounded : ∀ k, sink = some k → 0 < k.volume → (s.queue.items.length : Int) ≤ k.volume
  order : s.queue.taken ++ s.queue.items = s.queue.log.map Prod.snd
  calls : s.queue.producers.length = payloads.length
  own : ∀ (i : Nat) (payload : Payload E), payloads[i]? = some payload →
    (s.queue.log.filter fun e => e.1 == i).map Prod.snd <+: payload.events
  whole : ∀ (i : Nat) (payload : Payload E), payloads[i]? = some payload → s.Returned i →
    (s.queue.log.filter fun e => e.1 == i).map Prod.snd = payload.events
  known : ∀ e ∈ s.queue.log, e.1 < payloads.length
  set : ∀ k, sink = some k → s.unset = []
  nothing : sink = none → s.queue.log = []

/-- The events of each call. -/
theorem own_of_batch {ps : List (Payload E)}
    (hb : s.queue.producers.map Channel.Producer.batch = ps.map Payload.events) {payload : Payload E}
    (hi : ps[i]? = some payload) : ∃ call, s.queue.producers[i]? = some call ∧ call.batch = payload.events := by
  have h := congrArg (·[i]?) hb
  simp only [List.getElem?_map, hi, Option.map_some, Option.map_eq_some_iff] at h
  exact h

theorem kept_of_sound {capacity : Option Nat} {o : Option InMemorySink} {ps : List (Payload E)}
    (hb : s.queue.producers.map Channel.Producer.batch = ps.map Payload.events)
    (hs : Channel.Sound capacity s.queue) (hcap : ∀ k, o = some k → capacity = k.capacity)
    (hset : ∀ k, o = some k → s.unset = []) (hnone : o = none → s.queue.log = []) : Kept o ps s where
  bounded k hk hpos := by
    have h := hs.bounded k.volume.toNat (by rw [hcap k hk, InMemorySink.capacity, if_pos hpos])
    omega
  order := hs.order
  calls := by
    have h := congrArg List.length hb
    rwa [List.length_map, List.length_map] at h
  own i payload hi := by
    obtain ⟨call, hc, hbatch⟩ := own_of_batch hb hi
    rw [hs.own i call hc, ← hbatch]
    exact List.prefix_append call.put call.rest
  whole i payload hi hret := by
    obtain ⟨call, hc, hbatch⟩ := own_of_batch hb hi
    obtain ⟨call', hc', -, hput⟩ := hret
    rw [hc] at hc'
    cases hc'
    rw [hs.own i call hc, ← hbatch, hput]
  known e he := by
    have h := congrArg List.length hb
    rw [List.length_map, List.length_map] at h
    exact h ▸ hs.known e he
  set := hset
  nothing := hnone

/-- Every run of calls, consumers and cancellations. -/
theorem kept_of_run (o : Option InMemorySink) (hrun : Run.run (step o) new acts = some s) :
    Kept o (payloads acts) s := by
  cases o with
  | some sink =>
    obtain ⟨hq, hunset⟩ := run_queue hrun
    have hb := Channel.batches_run hq
    rw [batches_queueAct] at hb
    exact kept_of_sound hb (Channel.sound_run (Channel.sound_new sink.capacity) hq) (fun k hk => (by cases hk; rfl))
      (fun _ _ => hunset) fun h => (by cases h)
  | none =>
    have hnew : Untouched [] (new : Sinking E) := ⟨rfl, rfl, rfl, fun _ h => (by cases h), rfl⟩
    have hu := untouched_run hnew hrun
    rw [List.nil_append] at hu
    have hs : Channel.Sound none s.queue := by
      refine ⟨fun n hn => (by cases hn), ?_, fun i p hp => ?_, fun e he => ?_⟩
      · rw [hu.taken, hu.items, hu.log]
        rfl
      · rw [hu.log, hu.put p (List.mem_of_getElem? hp)]
        rfl
      · rw [hu.log] at he
        cases he
    exact kept_of_sound hu.calls hs (fun k hk => (by cases hk)) (fun k hk => (by cases hk)) fun _ => hu.log

/-- A sink of volume two, three events: two are put, one is taken, the third is put. -/
def overfull : List (SinkAct Nat) := [.sink (.sequence [1, 2, 3]), .resume 0, .get, .resume 0]

theorem run_overfull : Run.run (step (some ⟨2⟩)) new overfull =
    some ⟨⟨[2, 3], [⟨[1, 2, 3], [], false⟩], [1], [(0, 1), (0, 2), (0, 3)]⟩, []⟩ := by
  rfl

theorem kept_overfull :
    Kept (some ⟨2⟩) [.sequence [1, 2, 3]] ⟨⟨[2, 3], [⟨[1, 2, 3], [], false⟩], [1], [(0, 1), (0, 2), (0, 3)]⟩, []⟩ :=
  kept_of_run (some ⟨2⟩) run_overfull

/-! ### Waiting -/

theorem capacity_ne_zero (sink : InMemorySink) : sink.capacity ≠ some 0 := by
  intro h
  have := capacity_eq_some.1 h
  omega

theorem queueAct_eq_take : queueAct a = .take ↔ a = .get := by
  cases a <;> simp [queueAct]

/-- From a state of any run: a call gets through without anyone taking from the queue exactly when what is queued and
what is left to it are within the volume; so one with more events than the volume waits for ever. -/
theorem returns_iff_fits {call : Channel.Producer E} (hrun : Run.run (step (some sink)) new acts = some s)
    (hc : s.queue.producers[i]? = some call) (hstop : call.stopped = false) :
    (∃ acts' s', (∀ a ∈ acts', a ≠ .get) ∧ Run.run (step (some sink)) s acts' = some s' ∧ s'.Returned i) ↔
      (0 < sink.volume → (s.queue.items.length + call.rest.length : Int) ≤ sink.volume) := by
  have hs := Channel.sound_run (Channel.sound_new sink.capacity) (run_queue hrun).1
  have hfits : (∀ n, sink.capacity = some n → s.queue.items.length + call.rest.length ≤ n) ↔
      (0 < sink.volume → (s.queue.items.length + call.rest.length : Int) ≤ sink.volume) := by
    constructor
    · intro h hpos
      have := h sink.volume.toNat (by rw [InMemorySink.capacity, if_pos hpos])
      omega
    · intro h n hn
      obtain ⟨hpos, hv⟩ := capacity_eq_some.1 hn
      have := h hpos
      omega
  rw [← hfits]
  constructor
  · rintro ⟨acts', s', hget, hrun', call', hc', -, hput⟩ n hn
    refine Channel.fits_of_put hs hc (fun a ha => ?_) (run_queue hrun').1 hc' hput hn
    obtain ⟨b, hb, rfl⟩ := List.mem_map.1 ha
    rw [Ne, queueAct_eq_take]
    exact hget b hb
  · intro h
    by_cases hr : call.rest = []
    · refine ⟨[], s, fun a ha => (by cases ha), rfl, call, hc, hstop, ?_⟩
      rw [Channel.Producer.batch, hr, List.append_nil]
    · -- everything that is left is put at once
      have hgo : step (some sink) s (.resume i) = some { s with queue := s.queue.enqueue i call call.rest } := by
        rw [step, queueAct, Channel.step_go_all hc hstop hr h, Option.map_some]
      refine ⟨[.resume i], _, fun a ha => ?_, Run.run_cons.2 ⟨_, hgo, rfl⟩,
        _, (Channel.enqueue_producer hc _ i).trans (if_pos rfl), hstop, ?_⟩
      · cases List.mem_singleton.1 ha
        exact fun h => (by cases h)
      · rw [Channel.Producer.batch, List.drop_length, List.append_nil]

/-- The call with three events waits for ever. -/
theorem overfull_waits : ¬ ∃ acts' s', (∀ a ∈ acts', a ≠ .get) ∧
    Run.run (step (some ⟨2⟩)) ⟨⟨[1, 2], [⟨[1, 2], [3], false⟩], [], [(0, 1), (0, 2)]⟩, []⟩ acts' = some s' ∧
      s'.Returned 0 := by
  have hrun : Run.run (step (some ⟨2⟩)) new (overfull.take 2) =
      some ⟨⟨[1, 2], [⟨[1, 2], [3], false⟩], [], [(0, 1), (0, 2)]⟩, []⟩ := rfl
  rw [returns_iff_fits hrun rfl rfl]
  decide

/-- Calls that are not cancelled and consumers that take come to an end, in which all that was put is taken and each
call that was not cancelled before has put its whole payload. -/
theorem resumes_drain {acts' : List (SinkAct E)} (hrun : Run.run (step (some sink)) new acts = some s)
    (hacts : ∀ a ∈ acts', a = .get ∨ ∃ i, a = .resume i) (hrun' : Run.run (step (some sink)) s acts' = some s') :
    acts'.length ≤ Channel.load s.queue ∧
      (step (some sink) s' .get = none → (∀ i, step (some sink) s' (.resume i) = none) →
        s'.queue.taken = s'.queue.log.map Prod.snd ∧
          ∀ i payload, (payloads acts)[i]? = some payload →
            (∀ call, s'.queue.producers[i]? = some call → call.stopped = false) →
              (s'.queue.log.filter fun e => e.1 == i).map Prod.snd = payload.events) := by
  obtain ⟨hq', -⟩ := run_queue hrun'
  constructor
  · rw [← List.length_map queueAct]
    refine Channel.length_le_load (fun a ha => ?_) hq'
    obtain ⟨b, hb, rfl⟩ := List.mem_map.1 ha
    rcases hacts b hb with rfl | ⟨j, rfl⟩
    · exact ⟨fun _ h => (by cases h), fun _ h => (by cases h)⟩
    · exact ⟨fun _ h => (by cases h), fun _ h => (by cases h)⟩
  · intro hget hresume
    obtain ⟨hitems, hrest⟩ := Channel.drains (capacity_ne_zero sink) (s := s'.queue) fun a ha => by
      cases a with
      | call batch => exact absurd rfl (ha.1 batch)
      | stop j => exact absurd rfl (ha.2 j)
      | go j => exact Option.map_eq_none_iff.1 (hresume j)
      | take => exact Option.map_eq_none_iff.1 hget
    have hk := kept_of_run (some sink) (Run.run_append.2 ⟨s, hrun, hrun'⟩)
    -- the later actions call nothing
    have hsame : payloads (acts ++ acts') = payloads acts := by
      rw [payloads, payloads, List.filterMap_append, List.append_right_eq_self, List.filterMap_eq_nil_iff]
      intro a ha
      rcases hacts a ha with rfl | ⟨j, rfl⟩ <;> rfl
    rw [hsame] at hk
    refine ⟨?_, fun j payload hj hstop => hk.whole j payload hj ?_⟩
    · rw [← hk.order, hitems, List.append_nil]
    · have hlt : j < s'.queue.producers.length := hk.calls ▸ (List.getElem?_eq_some_iff.1 hj).1
      have hcall := List.getElem?_eq_getElem hlt
      refine ⟨_, hcall, hstop _ hcall, ?_⟩
      rw [Channel.Producer.batch, hrest j _ hcall (hstop _ hcall), List.append_nil]

/-- The call with three events, and three takes. -/
def drained : List (SinkAct Nat) := [.resume 0, .get, .resume 0, .get, .get]

theorem overfull_drains : ∃ s : Sinking Nat,
    Run.run (step (some ⟨2⟩)) new (overfull.take 1 ++ drained) = some s ∧ drained.length ≤ 6 ∧
      s.queue.taken = s.queue.log.map Prod.snd := by
  have hcall : Run.run (step (some ⟨2⟩)) new (overfull.take 1) =
      some ⟨⟨[], [⟨[], [1, 2, 3], false⟩], [], []⟩, []⟩ := rfl
  have hdrained : Run.run (step (some ⟨2⟩)) ⟨⟨[], [⟨[], [1, 2, 3], false⟩], [], []⟩, []⟩ drained =
      some ⟨⟨[], [⟨[1, 2, 3], [], false⟩], [1, 2, 3], [(0, 1), (0, 2), (0, 3)]⟩, []⟩ := rfl
  have h := resumes_drain hcall (fun a ha => ?_) hdrained
  · exact ⟨_, rfl, h.1, (h.2 rfl fun i => (by cases i <;> rfl)).1⟩
  · simp only [drained, List.mem_cons, List.not_mem_nil, or_false] at ha
    rcases ha with rfl | rfl | rfl | rfl | rfl <;> simp

end

end Sinking

end Anywise
