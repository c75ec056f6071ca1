import Anywise.Lib.Run
import Mathlib.Data.List.Basic

/-!
# Producers, a queue and consumers

Producers put their items at the end of one queue, from the front of which consumers take them.  The queue may have a
capacity; a producer goes on until all its items are in the queue or the queue is full, and a full queue makes it
wait, during which it may be stopped.  In every run the queue stays within its capacity and the items come out in the
order in which they were put in, those of one producer in its order and none twice (`sound_run`).  When nobody takes, a
producer gets through exactly when its items fit (`fits_of_put`, `step_go_all`); with consumers all get through
(`drains`).
-/

namespace Channel

/-! ### Steps -/

/-- What a producer has put into the queue and what is left to it. -/
structure Producer (α : Type) where
  put : List α
  rest : List α
  stopped : Bool

/-- All its items. -/
def Producer.batch {α : Type} (p : Producer α) : List α := p.put ++ p.rest

/-- A queue with its producers; `taken` and `log` record what consumers took and who put what, in order. -/
structure State (α : Type) where
  items : List α
  producers : List (Producer α)
  taken : List α
  log : List (Nat × α)

inductive Act (α : Type)
  | call (batch : List α)
  | go (i : Nat)
  | take
  | stop (i : Nat)

section

variable {α : Type}

def new : State α := ⟨[], [], [], []⟩

/-- The first items of the list, as many as there is room for. -/
def chunk (capacity : Option Nat) (items rest : List α) : List α :=
  match capacity with
  | none => rest
  | some n => rest.take (n - items.length)

/-- The items `xs` are put into the queue by producer number `i`, who has `rest` left. -/
def State.enqueue (s : State α) (i : Nat) (p : Producer α) (xs : List α) : State α where
  items := s.items ++ xs
  producers := s.producers.set i { p with put := p.put ++ xs, rest := p.rest.drop xs.length }
  taken := s.taken
  log := s.log ++ xs.map fun x => (i, x)

def step (capacity : Option Nat) (s : State α) : Act α → Option (State α)
  | .call batch => some { s with producers := s.producers ++ [⟨[], batch, false⟩] }
  | .go i =>
    match s.producers[i]? with
    | some p =>
      -- a full queue, or no item left
      if p.stopped ∨ (chunk capacity s.items p.rest).isEmpty then none
      else some (s.enqueue i p (chunk capacity s.items p.rest))
    | none => none
  | .take =>
    match s.items with
    | [] => none
    | x :: items => some { s with items := items, taken := s.taken ++ [x] }
  | .stop i =>
    match s.producers[i]? with
    | some p =>
      if p.stopped ∨ p.rest.isEmpty then none
      else some { s with producers := s.producers.set i { p with stopped := true } }
    | none => none

/-- The steps of the queue. -/
inductive Steps (capacity : Option Nat) (s : State α) : Act α → State α → Prop
  | call (batch : List α) : Steps capacity s (.call batch) { s with producers := s.producers ++ [⟨[], batch, false⟩] }
  | go {i : Nat} {p : Producer α} (hp : s.producers[i]? = some p) (hs : p.stopped = false)
      (hc : chunk capacity s.items p.rest ≠ []) :
      Steps capacity s (.go i) (s.enqueue i p (chunk capacity s.items p.rest))
  | take {x : α} {items : List α} (hi : s.items = x :: items) :
      Steps capacity s .take { s with items := items, taken := s.taken ++ [x] }
  | stop {i : Nat} {p : Producer α} (hp : s.producers[i]? = some p) (hs : p.stopped = false) (hr : p.rest ≠ []) :
      Steps capacity s (.stop i) { s with producers := s.producers.set i { p with stopped := true } }

variable {capacity : Option Nat} {s s' : State α} {a : Act α} {i : Nat} {p : Producer α}

theorem steps_of_step (h : step capacity s a = some s') : Steps capacity s a s' := by
  cases a with
  | call batch =>
    cases h
    exact .call batch
  | go i =>
    simp only [step] at h
    split at h
    · rename_i p hp
      split at h
      · cases h
      · rename_i hc
        cases h
        rw [not_or, Bool.not_eq_true, List.isEmpty_iff] at hc
        exact .go hp hc.1 hc.2
    · cases h
  | take =>
    simp only [step] at h
    split at h
    · cases h
    · rename_i x items hi
      cases h
      exact .take hi
  | stop i =>
    simp only [step] at h
    split at h
    · rename_i p hp
      split at h
      · cases h
      · rename_i hc
        cases h
        rw [not_or, Bool.not_eq_true, List.isEmpty_iff] at hc
        exact .stop hp hc.1 hc.2
    · cases h

theorem step_go (hp : s.producers[i]? = some p) (hs : p.stopped = false) (hc : chunk capacity s.items p.rest ≠ []) :
    step capacity s (.go i) = some (s.enqueue i p (chunk capacity s.items p.rest)) := by
  simp only [step, hp]
  rw [if_neg]
  rw [not_or, Bool.not_eq_true, List.isEmpty_iff]
  exact ⟨hs, hc⟩

/-! ### One producer goes on -/

/-- What is put is the beginning of what was left. -/
theorem chunk_append_drop (capacity : Option Nat) (items rest : List α) :
    chunk capacity items rest ++ rest.drop (chunk capacity items rest).length = rest := by
  cases capacity with
  | none => simp [chunk]
  | some n =>
    have h : (chunk (some n) items rest).length = min (n - items.length) rest.length := List.length_take
    rw [h, chunk]
    rcases Nat.le_total (n - items.length) rest.length with hle | hle
    · rw [Nat.min_eq_left hle, List.take_append_drop]
    · rw [Nat.min_eq_right hle, List.take_of_length_le hle, List.drop_length, List.append_nil]

theorem length_chunk_le (n : Nat) (items rest : List α) :
    (chunk (some n) items rest).length ≤ n - items.length := by
  rw [chunk, List.length_take]
  exact Nat.min_le_left _ _

/-- A producer with items left waits only for a full queue. -/
theorem chunk_eq_nil {items rest : List α} (hr : rest ≠ []) :
    chunk capacity items rest = [] ↔ ∃ n, capacity = some n ∧ n ≤ items.length := by
  cases capacity with
  | none => simp [chunk, hr]
  | some n =>
    rw [chunk, List.take_eq_nil_iff, or_iff_left hr]
    constructor
    · intro h
      exact ⟨n, rfl, by omega⟩
    · rintro ⟨m, hm, hle⟩
      cases hm
      omega

/-- All the items that are left fit. -/
theorem chunk_eq_self {items rest : List α} (h : ∀ n, capacity = some n → items.length + rest.length ≤ n) :
    chunk capacity items rest = rest := by
  cases capacity with
  | none => rfl
  | some n =>
    have hle := h n rfl
    exact List.take_of_length_le (by omega)

theorem enqueue_producer (hp : s.producers[i]? = some p) (xs : List α) (j : Nat) :
    (s.enqueue i p xs).producers[j]? =
      if i = j then some { p with put := p.put ++ xs, rest := p.rest.drop xs.length } else s.producers[j]? := by
  have hlt := (List.getElem?_eq_some_iff.1 hp).1
  rw [State.enqueue, List.getElem?_set]
  simp [hlt]

/-! ### What every run keeps -/

/-- The queue is within its capacity, all that was put is queued or taken, in this order, and each producer has put
what the log says. -/
structure Sound (capacity : Option Nat) (s : State α) : Prop where
  bounded : ∀ n, capacity = some n → s.items.length ≤ n
  order : s.taken ++ s.items = s.log.map Prod.snd
  own : ∀ i p, s.producers[i]? = some p → (s.log.filter fun e => e.1 == i).map Prod.snd = p.put
  known : ∀ e ∈ s.log, e.1 < s.producers.length

theorem sound_new (capacity : Option Nat) : Sound capacity (new : State α) :=
  ⟨fun _ _ => Nat.zero_le _, rfl, fun i p hp => (by cases hp), fun e he => (by cases he)⟩

private theorem filter_map_pair (i j : Nat) (xs : List α) :
    ((xs.map fun x => (i, x)).filter fun e => e.1 == j).map Prod.snd = if i = j then xs else [] := by
  rw [List.filter_map]
  split
  · rename_i h
    subst h
    simp [Function.comp_def]
  · rename_i h
    simp [Function.comp_def, h]

theorem sound_step (hs : Sound capacity s) (h : step capacity s a = some s') : Sound capacity s' := by
  cases steps_of_step h with
  | call batch =>
    refine ⟨hs.bounded, hs.order, fun i p hp => ?_, fun e he => ?_⟩
    · rcases Nat.lt_trichotomy i s.producers.length with hlt | rfl | hgt
      · rw [List.getElem?_append_left hlt] at hp
        exact hs.own i p hp
      · -- nothing has been put by the new producer
        rw [List.getElem?_concat_length] at hp
        cases hp
        rw [List.map_eq_nil_iff, List.filter_eq_nil_iff]
        intro e he
        have := hs.known e he
        simp only [beq_iff_eq]
        omega
      · rw [List.getElem?_eq_none (by simp; omega)] at hp
        cases hp
    · have := hs.known e he
      rw [List.length_append]
      exact Nat.lt_add_right _ this
  | @go i p hp _ _ =>
    refine ⟨fun n hn => ?_, ?_, fun j q hq => ?_, fun e he => ?_⟩
    · subst hn
      have hle := length_chunk_le n s.items p.rest
      have hb := hs.bounded n rfl
      rw [State.enqueue, List.length_append]
      omega
    · simp only [State.enqueue, List.map_append, List.map_map]
      rw [← List.append_assoc, hs.order]
      simp [Function.comp_def]
    · rw [enqueue_producer hp] at hq
      simp only [State.enqueue, List.filter_append, List.map_append, filter_map_pair]
      split at hq
      · rename_i hij
        subst hij
        cases hq
        rw [hs.own i p hp, if_pos rfl]
      · rename_i hij
        rw [hs.own j q hq, if_neg hij, List.append_nil]
    · simp only [State.enqueue, List.length_set]
      rcases List.mem_append.1 he with he | he
      · exact hs.known e he
      · obtain ⟨x, -, rfl⟩ := List.mem_map.1 he
        exact (List.getElem?_eq_some_iff.1 hp).1
  | @take x items hi =>
    refine ⟨fun n hn => ?_, ?_, hs.own, hs.known⟩
    · have hb := hs.bounded n hn
      rw [hi, List.length_cons] at hb
      exact Nat.le_of_succ_le hb
    · rw [← hs.order, hi, List.append_assoc, List.singleton_append]
  | @stop i p hp _ _ =>
    have hlt := (List.getElem?_eq_some_iff.1 hp).1
    refine ⟨hs.bounded, hs.order, fun j q hq => ?_, fun e he => by rw [List.length_set]; exact hs.known e he⟩
    rw [List.getElem?_set] at hq
    split at hq
    · rename_i hij
      subst hij
      cases hq
      exact hs.own i p hp
    · exact hs.own j q hq

/-- In every run the queue is within its capacity and loses, doubles and reorders nothing. -/
theorem sound_run {acts : List (Act α)} (hs : Sound capacity s) (hrun : Run.run (step capacity) s acts = some s') :
    Sound capacity s' :=
  Run.preserved (fun _ _ _ hi h => sound_step hi h) hs hrun

/-- A producer keeps its items. -/
theorem batch_step (h : step capacity s a = some s') (hp : s.producers[i]? = some p) :
    ∃ p', s'.producers[i]? = some p' ∧ p'.batch = p.batch := by
  cases steps_of_step h with
  | call batch => exact ⟨p, by rw [List.getElem?_append_left (List.getElem?_eq_some_iff.1 hp).1, hp], rfl⟩
  | @go j q hq _ _ =>
    rw [enqueue_producer hq]
    by_cases hij : j = i
    · subst hij
      rw [hp] at hq
      cases hq
      refine ⟨_, if_pos rfl, ?_⟩
      rw [Producer.batch, List.append_assoc, chunk_append_drop, Producer.batch]
    · exact ⟨p, (if_neg hij).trans hp, rfl⟩
  | take _ => exact ⟨p, hp, rfl⟩
  | @stop j q hq _ _ =>
    have hlt := (List.getElem?_eq_some_iff.1 hq).1
    by_cases hij : j = i
    · subst hij
      rw [hp] at hq
      cases hq
      exact ⟨_, List.getElem?_set_self hlt, rfl⟩
    · exact ⟨p, (List.getElem?_set_ne hij).trans hp, rfl⟩

/-- The producers are those that were called, in order. -/
def batches (acts : List (Act α)) : List (List α) :=
  acts.filterMap fun a =>
    match a with
    | .call batch => some batch
    | _ => none

theorem batches_run {acts : List (Act α)} (hrun : Run.run (step capacity) s acts = some s') :
    s'.producers.map Producer.batch = s.producers.map Producer.batch ++ batches acts := by
  induction acts generalizing s with
  | nil =>
    cases hrun
    simp [batches]
  | cons a acts ih =>
    obtain ⟨t, ht, hrun⟩ := Run.run_cons.1 hrun
    rw [ih hrun]
    -- only a call adds a producer
    have hsame : (∀ batch, a ≠ .call batch) → t.producers.map Producer.batch = s.producers.map Producer.batch := by
      intro hno
      have hlen : t.producers.length = s.producers.length := by
        cases steps_of_step ht with
        | call batch => exact absurd rfl (hno batch)
        | go _ _ _ => simp [State.enqueue]
        | take _ => rfl
        | stop _ _ _ => simp
      refine List.ext_getElem? fun j => ?_
      rw [List.getElem?_map, List.getElem?_map]
      cases hj : s.producers[j]? with
      | none =>
        have hge := List.getElem?_eq_none_iff.1 hj
        rw [List.getElem?_eq_none (hlen ▸ hge)]
      | some p =>
        obtain ⟨p', hp', hb⟩ := batch_step ht hj
        rw [hp', Option.map_some, Option.map_some, hb]
    cases a with
    | call batch =>
      cases ht
      simp [batches, Producer.batch]
    | go j | stop j =>
      rw [hsame fun batch hb => (by cases hb)]
      rfl
    | take =>
      rw [hsame fun batch hb => (by cases hb)]
      rfl

/-! ### Without a consumer -/

/-- Without a consumer, what the producer has put is in the queue, behind what was there before. -/
theorem length_put_le {acts : List (Act α)} (hp : s.producers[i]? = some p)
    (htake : ∀ a ∈ acts, a ≠ .take) (hrun : Run.run (step capacity) s acts = some s') :
    ∃ p', s'.producers[i]? = some p' ∧ p'.batch = p.batch ∧
      s.items.length + p'.put.length ≤ s'.items.length + p.put.length := by
  induction acts generalizing s p with
  | nil =>
    cases hrun
    exact ⟨p, hp, rfl, Nat.le_refl _⟩
  | cons a acts ih =>
    obtain ⟨t, ht, hrun⟩ := Run.run_cons.1 hrun
    have hone : ∃ q, t.producers[i]? = some q ∧ q.batch = p.batch ∧
        s.items.length + q.put.length ≤ t.items.length + p.put.length := by
      obtain ⟨q, hq, hb⟩ := batch_step ht hp
      refine ⟨q, hq, hb, ?_⟩
      cases steps_of_step ht with
      | call batch =>
        rw [List.getElem?_append_left (List.getElem?_eq_some_iff.1 hp).1, hp] at hq
        cases hq
        exact Nat.le_refl _
      | @go j r hr _ _ =>
        rw [enqueue_producer hr] at hq
        rw [State.enqueue, List.length_append]
        split at hq
        · rename_i hij
          subst hij
          rw [hp] at hr
          cases hr
          cases hq
          rw [List.length_append]
          omega
        · rw [hp] at hq
          cases hq
          omega
      | take _ => exact absurd rfl (htake _ List.mem_cons_self)
      | @stop j r hr _ _ =>
        have hlt := (List.getElem?_eq_some_iff.1 hr).1
        rw [List.getElem?_set] at hq
        split at hq
        · rename_i hij
          subst hij
          rw [hp] at hr
          cases hr
          cases hq
          exact Nat.le_refl _
        · rw [hp] at hq
          cases hq
          exact Nat.le_refl _
    obtain ⟨q, hq, hb, hle⟩ := hone
    obtain ⟨p', hp', hb', hle'⟩ := ih hq (fun b hb => htake b (List.mem_cons_of_mem a hb)) hrun
    exact ⟨p', hp', hb'.trans hb, by omega⟩

/-- A producer that has put all its items without a consumer had room for them. -/
theorem fits_of_put {acts : List (Act α)} {p' : Producer α} (hs : Sound capacity s) (hp : s.producers[i]? = some p)
    (htake : ∀ a ∈ acts, a ≠ .take) (hrun : Run.run (step capacity) s acts = some s')
    (hp' : s'.producers[i]? = some p') (hput : p'.put = p'.batch) {n : Nat} (hn : capacity = some n) :
    s.items.length + p.rest.length ≤ n := by
  obtain ⟨q, hq, hb, hle⟩ := length_put_le hp htake hrun
  rw [hp'] at hq
  cases hq
  have hbound := (sound_run hs hrun).bounded n hn
  rw [hput, hb, Producer.batch, List.length_append] at hle
  omega

/-- With room for them it puts them all at once. -/
theorem step_go_all (hp : s.producers[i]? = some p) (hstop : p.stopped = false) (hr : p.rest ≠ [])
    (hfits : ∀ n, capacity = some n → s.items.length + p.rest.length ≤ n) :
    step capacity s (.go i) = some (s.enqueue i p p.rest) := by
  have hself := chunk_eq_self hfits
  rw [step_go hp hstop (by rwa [hself]), hself]

/-! ### With consumers -/

/-- How many items the producers have left to put. -/
def left : List (Producer α) → Nat
  | [] => 0
  | p :: ps => p.rest.length + left ps

/-- Twice what is left to put, and once what is queued. -/
def load (s : State α) : Nat := 2 * left s.producers + s.items.length

theorem left_set {ps : List (Producer α)} {i : Nat} {p : Producer α} (hp : ps[i]? = some p) (q : Producer α) :
    left (ps.set i q) + p.rest.length = left ps + q.rest.length := by
  induction ps generalizing i with
  | nil => cases hp
  | cons r ps ih =>
    cases i with
    | zero =>
      cases hp
      simp only [List.set_cons_zero, left]
      omega
    | succ i =>
      have h := ih hp
      simp only [List.set_cons_succ, left]
      omega

/-- Going on and taking diminish the load. -/
theorem load_step (h : step capacity s a = some s') (hcall : ∀ batch, a ≠ .call batch) (hstop : ∀ i, a ≠ .stop i) :
    load s' < load s := by
  cases steps_of_step h with
  | call batch => exact absurd rfl (hcall batch)
  | @go i p hp _ hc =>
    have hleft := left_set hp { p with
      put := p.put ++ chunk capacity s.items p.rest
      rest := p.rest.drop (chunk capacity s.items p.rest).length }
    have hrest := congrArg List.length (chunk_append_drop capacity s.items p.rest)
    have hpos := List.length_pos_iff.2 hc
    rw [List.length_append] at hrest
    simp only [load, State.enqueue, List.length_append]
    simp only at hleft
    omega
  | take hi =>
    simp only [load, hi, List.length_cons]
    omega
  | @stop i _ _ _ _ => exact absurd rfl (hstop i)

/-- Neither a new producer nor the end of one. -/
def Act.Goes (a : Act α) : Prop := (∀ batch, a ≠ .call batch) ∧ ∀ i, a ≠ .stop i

/-- Producers and consumers that only go on come to an end. -/
theorem length_le_load {acts : List (Act α)} (hacts : ∀ a ∈ acts, a.Goes)
    (hrun : Run.run (step capacity) s acts = some s') : acts.length ≤ load s := by
  obtain ⟨n, hle, -⟩ := Run.length_le_budget (B := fun s n => load s = n)
    (fun s a s' n hn ha h => ⟨load s', hn ▸ load_step h ha.1 ha.2, rfl⟩) rfl hacts hrun
  omega

/-- In the end nothing is queued and each producer that was not stopped has put all its items; a queue without any
room is the exception. -/
theorem drains (hcap : capacity ≠ some 0) (hdone : ∀ a : Act α, a.Goes → step capacity s a = none) :
    s.items = [] ∧ ∀ (i : Nat) (p : Producer α), s.producers[i]? = some p → p.stopped = false → p.rest = [] := by
  have hitems : s.items = [] := by
    cases hi : s.items with
    | nil => rfl
    | cons x items =>
      have h := hdone .take ⟨fun _ h => (by cases h), fun _ h => (by cases h)⟩
      simp [step, hi] at h
  refine ⟨hitems, fun i p hp hs => ?_⟩
  by_contra hr
  -- an empty queue keeps nobody waiting
  have hc : chunk capacity s.items p.rest ≠ [] := by
    rw [Ne, chunk_eq_nil hr, hitems]
    rintro ⟨n, rfl, hn⟩
    exact hcap (congrArg some (Nat.le_zero.1 hn))
  have h := hdone (.go i) ⟨fun _ h => (by cases h), fun _ h => (by cases h)⟩
  rw [step_go hp hs hc] at h
  cases h

end

end Channel
