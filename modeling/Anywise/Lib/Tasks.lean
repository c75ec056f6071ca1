import Anywise.Lib.Run
import Mathlib.Data.List.Nodup
import Mathlib.Data.List.Perm.Subperm
import Mathlib.Data.List.Range
import Mathlib.Logic.Hydra

/-!
# Tasks that share a cell

Coroutines work on one cell of shared state.  A coroutine runs by itself until it pauses or ends (`Prog.segment`); a
pool runs such segments of its tasks, in any order or one task after the other (`Pool.step`).  When no task raises
each is begun exactly once and every run can be completed (`Pool.Once`, `Pool.completes`); when no task changes the
cell every task sees what the cell held at the start (`Pool.Still`).
-/

namespace Tasks

/-! ### Coroutines -/

/-- What a coroutine does next, and what it does with the answer.  A write is told whether the cell can be written, a
pause whether the coroutine shall stop. -/
inductive Prog (S : Type)
  | ret
  | raise
  | read (k : S → Prog S)
  | write (f : S → S) (k : Bool → Prog S)
  | pause (k : Bool → Prog S)

inductive Status (S : Type)
  | waiting
  | suspended (k : Bool → Prog S)
  | returned
  | raised
  | cancelled

/-- A cancelled task was cancelled before it began. -/
def Status.isBegun {S : Type} : Status S → Bool
  | waiting | cancelled => false
  | suspended _ | returned | raised => true

def Status.isReturned {S : Type} : Status S → Bool
  | returned => true
  | waiting | suspended _ | raised | cancelled => false

def Status.isRaised {S : Type} : Status S → Bool
  | raised => true
  | waiting | suspended _ | returned | cancelled => false

/-- What a coroutine did until it paused or ended: what it saw in the cell, what it left there and where it is now. -/
structure Segment (S : Type) where
  seen : List S
  cell : S
  status : Status S

namespace Prog

variable {S : Type} {w : Bool} {s : S} {p : Prog S}

/-- Runs the coroutine on a cell that can be written if `w` is set. -/
def segment (w : Bool) : Prog S → S → Segment S
  | ret, s => ⟨[], s, .returned⟩
  | raise, s => ⟨[], s, .raised⟩
  | read k, s => ⟨s :: ((k s).segment w s).seen, ((k s).segment w s).cell, ((k s).segment w s).status⟩
  | write f k, s => (k w).segment w (if w then f s else s)
  | pause k, s => ⟨[], s, .suspended k⟩

/-- As long as the cell holds `s` the coroutine leaves it so. -/
def Quiet (w : Bool) (s : S) : Prog S → Prop
  | ret | raise => True
  | read k => (k s).Quiet w s
  | write f k => (w = true → f s = s) ∧ (k w).Quiet w s
  | pause k => ∀ b, (k b).Quiet w s

/-- The coroutine does not raise, whatever it sees, unless it is told to stop. -/
def Returns (w : Bool) : Prog S → Prop
  | ret => True
  | raise => False
  | read k => ∀ s, (k s).Returns w
  | write _ k => (k w).Returns w
  | pause k => (k false).Returns w

theorem quiet_unwritable (s : S) (p : Prog S) : p.Quiet false s := by
  induction p with
  | ret | raise => trivial
  | read k ih => exact ih s
  | write f k ih => exact ⟨fun h => (by cases h), ih false⟩
  | pause k ih => exact ih

theorem segment_isBegun (w : Bool) (p : Prog S) (s : S) : (p.segment w s).status.isBegun = true := by
  induction p generalizing s with
  | ret | raise | pause _ => rfl
  | read k ih => exact ih s s
  | write f k ih => exact ih w _

/-- A quiet coroutine sees `s` all the time, and is still quiet when it goes on. -/
theorem Quiet.segment (hp : p.Quiet w s) : (p.segment w s).cell = s ∧ (∀ x ∈ (p.segment w s).seen, x = s) ∧
    ∀ k, (p.segment w s).status = .suspended k → ∀ b, (k b).Quiet w s := by
  induction p with
  | ret | raise => exact ⟨rfl, fun x hx => (by cases hx), fun k hk => (by cases hk)⟩
  | read k ih =>
    obtain ⟨hc, hx, hk⟩ := ih s hp
    refine ⟨hc, fun x hx' => ?_, hk⟩
    rcases List.mem_cons.1 hx' with rfl | hx'
    · rfl
    · exact hx x hx'
  | write f k ih =>
    have hs : (if w = true then f s else s) = s := by
      by_cases h : w = true
      · rw [if_pos h, hp.1 h]
      · rw [if_neg h]
    rw [Prog.segment, hs]
    exact ih w hp.2
  | pause k _ => exact ⟨rfl, fun x hx => (by cases hx), fun k' hk' => (by cases hk'; exact hp)⟩

/-- A coroutine that does not raise returns or pauses, and does not raise when it goes on. -/
theorem Returns.segment (hp : p.Returns w) (s : S) : (p.segment w s).status.isRaised = false ∧
    ∀ k, (p.segment w s).status = .suspended k → (k false).Returns w := by
  induction p generalizing s with
  | ret => exact ⟨rfl, fun k hk => (by cases hk)⟩
  | raise => exact hp.elim
  | read k ih => exact ih s (hp s) s
  | write f k ih => exact ih w hp _
  | pause k _ => exact ⟨rfl, fun k' hk' => (by cases hk'; exact hp)⟩

end Prog

/-! ### Pools -/

structure Task (L S : Type) where
  label : L
  prog : Prog S
  status : Status S

/-- A task has begun, or has seen the contents of the cell. -/
inductive Event (L S : Type)
  | begun (i : Nat) (l : L)
  | saw (i : Nat) (s : S)

structure Pool (L S : Type) where
  cell : S
  tasks : List (Task L S)
  log : List (Event L S)

inductive Act
  | start (i : Nat)
  | resume (i : Nat)
  | cancel (i : Nat)
deriving DecidableEq

def Event.begin? {L S : Type} : Event L S → Option (Nat × L)
  | begun i l => some (i, l)
  | saw _ _ => none

namespace Pool

variable {L S : Type} {w seq : Bool} {s : S} {p p' : Pool L S} {a : Act} {acts : List Act}

/-- The tasks that have begun, with their labels, in the order in which they did. -/
def begun (p : Pool L S) : List (Nat × L) := p.log.filterMap Event.begin?

/-- Every task has returned. -/
def Complete (p : Pool L S) : Prop := ∀ t ∈ p.tasks, t.status.isReturned = true

/-- Task `i` runs `q`, after the events `ev`. -/
def advance (w : Bool) (p : Pool L S) (i : Nat) (t : Task L S) (q : Prog S) (ev : List (Event L S)) : Pool L S where
  cell := (q.segment w p.cell).cell
  tasks := p.tasks.set i { t with status := (q.segment w p.cell).status }
  log := p.log ++ ev ++ (q.segment w p.cell).seen.map (.saw i)

/-- Task `i` may begin: in a sequential pool, when all before it have returned. -/
def mayStart (seq : Bool) (p : Pool L S) (i : Nat) : Bool := !seq || (p.tasks.take i).all fun t => t.status.isReturned

/-- The tasks are told to stop: in a pool that is not sequential, when one of them has raised.  When each of them
learns of it, and how often, is left open. -/
def mayCancel (seq : Bool) (p : Pool L S) : Bool := !seq && p.tasks.any fun t => t.status.isRaised

/-- A task that is told to stop before it has begun never begins. -/
def step (w seq : Bool) (p : Pool L S) : Act → Option (Pool L S)
  | .start i =>
    match p.tasks[i]? with
    | some ⟨l, q, .waiting⟩ => if p.mayStart seq i then some (p.advance w i ⟨l, q, .waiting⟩ q [.begun i l]) else none
    | _ => none
  | .resume i =>
    match p.tasks[i]? with
    | some ⟨l, q, .suspended k⟩ => some (p.advance w i ⟨l, q, .suspended k⟩ (k false) [])
    | _ => none
  | .cancel i =>
    match p.tasks[i]? with
    | some ⟨l, q, .suspended k⟩ =>
      if p.mayCancel seq then some (p.advance w i ⟨l, q, .suspended k⟩ (k true) []) else none
    | some ⟨l, q, .waiting⟩ =>
      if p.mayCancel seq then some { p with tasks := p.tasks.set i ⟨l, q, .cancelled⟩ } else none
    | _ => none

/-- The pool of the tasks with these labels and coroutines, on a cell with the contents `s`. -/
def new (s : S) (ts : List (L × Prog S)) : Pool L S := ⟨s, ts.map fun t => ⟨t.1, t.2, .waiting⟩, []⟩

/-- The steps of a pool. -/
inductive Steps (w seq : Bool) (p : Pool L S) : Act → Pool L S → Prop
  | start {i : Nat} {t : Task L S} (ht : p.tasks[i]? = some t) (hs : t.status = .waiting)
      (hm : p.mayStart seq i = true) : Steps w seq p (.start i) (p.advance w i t t.prog [.begun i t.label])
  | resume {i : Nat} {t : Task L S} {k : Bool → Prog S} (ht : p.tasks[i]? = some t)
      (hs : t.status = .suspended k) : Steps w seq p (.resume i) (p.advance w i t (k false) [])
  | stop {i : Nat} {t : Task L S} {k : Bool → Prog S} (ht : p.tasks[i]? = some t)
      (hs : t.status = .suspended k) (hm : p.mayCancel seq = true) :
      Steps w seq p (.cancel i) (p.advance w i t (k true) [])
  | cancel {i : Nat} {t : Task L S} (ht : p.tasks[i]? = some t) (hs : t.status = .waiting)
      (hm : p.mayCancel seq = true) :
      Steps w seq p (.cancel i) { p with tasks := p.tasks.set i { t with status := .cancelled } }

theorem steps_of_step (h : p.step w seq a = some p') : Steps w seq p a p' := by
  cases a with
  | start i =>
    simp only [step] at h
    split at h
    case h_1 l q ht =>
      by_cases hm : p.mayStart seq i = true
      · rw [if_pos hm] at h
        cases h
        exact .start ht rfl hm
      · rw [if_neg hm] at h
        cases h
    case h_2 => cases h
  | resume i =>
    simp only [step] at h
    split at h
    case h_1 l q k ht =>
      cases h
      exact .resume ht rfl
    case h_2 => cases h
  | cancel i =>
    simp only [step] at h
    split at h
    case h_1 l q k ht =>
      by_cases hm : p.mayCancel seq = true
      · rw [if_pos hm] at h
        cases h
        exact .stop ht rfl hm
      · rw [if_neg hm] at h
        cases h
    case h_2 l q ht =>
      by_cases hm : p.mayCancel seq = true
      · rw [if_pos hm] at h
        cases h
        exact .cancel ht rfl hm
      · rw [if_neg hm] at h
        cases h
    case h_3 => cases h

theorem step_start {i : Nat} {t : Task L S} (ht : p.tasks[i]? = some t) (hs : t.status = .waiting)
    (hm : p.mayStart seq i = true) :
    p.step w seq (.start i) = some (p.advance w i t t.prog [.begun i t.label]) := by
  obtain ⟨l, q, st⟩ := t
  subst hs
  simp only [step, ht, hm, if_true]

theorem step_resume {i : Nat} {t : Task L S} {k : Bool → Prog S} (ht : p.tasks[i]? = some t)
    (hs : t.status = .suspended k) : p.step w seq (.resume i) = some (p.advance w i t (k false) []) := by
  obtain ⟨l, q, st⟩ := t
  subst hs
  simp only [step, ht]

/-! ### One task goes on -/

private theorem getElem?_advance {i : Nat} {t : Task L S} (ht : p.tasks[i]? = some t) (q : Prog S)
    (ev : List (Event L S)) :
    (p.advance w i t q ev).tasks[i]? = some { t with status := (q.segment w p.cell).status } :=
  List.getElem?_set_self (List.getElem?_eq_some_iff.1 ht).1

private theorem getElem?_advance_ne {i j : Nat} (h : j ≠ i) (t : Task L S) (q : Prog S) (ev : List (Event L S)) :
    (p.advance w i t q ev).tasks[j]? = p.tasks[j]? := List.getElem?_set_ne (Ne.symm h)

/-- What holds of every task, and of task `i` with its new status, holds of every task afterwards. -/
private theorem forall_set {P : Task L S → Prop} {ts : List (Task L S)} (h : ∀ t ∈ ts, P t) {i : Nat}
    {t : Task L S} (ht : P t) : ∀ u ∈ ts.set i t, P u := by
  intro u hu
  rcases List.mem_or_eq_of_mem_set hu with hu | rfl
  · exact h u hu
  · exact ht

theorem labels_set {ts : List (Task L S)} {i : Nat} {t : Task L S} (ht : ts[i]? = some t) (st : Status S) :
    (ts.set i { t with status := st }).map Task.label = ts.map Task.label := by
  obtain ⟨hi, rfl⟩ := List.getElem?_eq_some_iff.1 ht
  rw [List.map_set]
  refine List.ext_getElem (by rw [List.length_set]) fun j hj hj' => ?_
  rw [List.getElem_set]
  split
  case isTrue h =>
    subst h
    rw [List.getElem_map]
  case isFalse => rfl

theorem labels_step (h : p.step w seq a = some p') : p'.tasks.map Task.label = p.tasks.map Task.label := by
  cases steps_of_step h with
  | start ht _ _ | resume ht _ | stop ht _ _ | cancel ht _ _ => exact labels_set ht _

/-- A run keeps the tasks and their labels. -/
theorem labels_run (h : Run.run (step w seq) p acts = some p') :
    p'.tasks.map Task.label = p.tasks.map Task.label := by
  refine Run.preserved (I := fun q => q.tasks.map Task.label = p.tasks.map Task.label) (fun q a q' hq hs => ?_) rfl h
  rw [labels_step hs, hq]

/-! ### Quiet tasks -/

/-- The cell holds `s` and every task has seen `s` and leaves it so. -/
structure Still (w : Bool) (s : S) (p : Pool L S) : Prop where
  cell : p.cell = s
  prog : ∀ t ∈ p.tasks, t.prog.Quiet w s
  cont : ∀ t ∈ p.tasks, ∀ k, t.status = .suspended k → ∀ b, (k b).Quiet w s
  seen : ∀ i x, .saw i x ∈ p.log → x = s

theorem still_new {ts : List (L × Prog S)} (h : ∀ t ∈ ts, t.2.Quiet w s) : Still w s (new s ts) where
  cell := rfl
  prog t ht := by
    obtain ⟨u, hu, rfl⟩ := List.mem_map.1 ht
    exact h u hu
  cont t ht k hk := by
    obtain ⟨u, hu, rfl⟩ := List.mem_map.1 ht
    cases hk
  seen i x hx := by cases hx

private theorem Still.advance (h : Still w s p) {i : Nat} {t : Task L S} (ht : p.tasks[i]? = some t) {q : Prog S}
    (hq : q.Quiet w s) {ev : List (Event L S)} (hev : ∀ i x, .saw i x ∈ ev → x = s) :
    Still w s (p.advance w i t q ev) := by
  have hseg := hq.segment
  rw [← h.cell] at hseg
  obtain ⟨hcell, hseen, hk⟩ := hseg
  refine ⟨hcell.trans h.cell, forall_set h.prog (h.prog t (List.mem_of_getElem? ht)),
    forall_set h.cont fun k hk' b => h.cell ▸ hk k hk' b, fun j x hx => ?_⟩
  rcases List.mem_append.1 hx with hx | hx
  · rcases List.mem_append.1 hx with hx | hx
    · exact h.seen j x hx
    · exact hev j x hx
  · obtain ⟨y, hy, hyx⟩ := List.mem_map.1 hx
    cases hyx
    exact (hseen x hy).trans h.cell

theorem still_step (h : Still w s p) (hs : p.step w seq a = some p') : Still w s p' := by
  cases steps_of_step hs with
  | start ht _ _ =>
    refine h.advance ht (h.prog _ (List.mem_of_getElem? ht)) fun i x hx => ?_
    cases List.mem_singleton.1 hx
  | resume ht hst => exact h.advance ht (h.cont _ (List.mem_of_getElem? ht) _ hst false) fun i x hx => (by cases hx)
  | stop ht hst _ => exact h.advance ht (h.cont _ (List.mem_of_getElem? ht) _ hst true) fun i x hx => (by cases hx)
  | cancel ht _ _ =>
    have hq := h.prog _ (List.mem_of_getElem? ht)
    exact ⟨h.cell, forall_set h.prog hq, forall_set h.cont fun k hk => (by cases hk), h.seen⟩

theorem still_run (h : Still w s p) (hrun : Run.run (step w seq) p acts = some p') : Still w s p' :=
  Run.preserved (fun _ _ _ hi hs => still_step hi hs) h hrun

/-! ### Each task is begun once -/

/-- The tasks that have begun are the ones in the list of the begun, each there once. -/
structure Once (p : Pool L S) : Prop where
  nodup : (p.begun.map Prod.fst).Nodup
  mem : ∀ i l, (i, l) ∈ p.begun ↔ ∃ t, p.tasks[i]? = some t ∧ t.label = l ∧ t.status.isBegun = true

theorem once_new (s : S) (ts : List (L × Prog S)) : Once (new s ts) where
  nodup := List.nodup_nil
  mem i l := by
    constructor
    · intro h
      cases h
    · rintro ⟨t, ht, -, hb⟩
      obtain ⟨u, hu, rfl⟩ := List.mem_map.1 (List.mem_of_getElem? ht)
      cases hb

private theorem begun_advance (i : Nat) (t : Task L S) (q : Prog S) (ev : List (Event L S)) :
    (p.advance w i t q ev).begun = p.begun ++ ev.filterMap Event.begin? := by
  have hsaw : ∀ xs : List S, (xs.map (Event.saw (L := L) i)).filterMap Event.begin? = [] := by
    intro xs
    rw [List.filterMap_eq_nil_iff]
    intro e he
    obtain ⟨x, -, rfl⟩ := List.mem_map.1 he
    rfl
  rw [begun, advance, List.filterMap_append, List.filterMap_append, hsaw, List.append_nil, begun]

/-- A change of the status of task `i` that neither begins it nor undoes that it began. -/
private theorem Once.same (h : Once p) {i : Nat} {t : Task L S} (ht : p.tasks[i]? = some t) {st : Status S}
    (hst : st.isBegun = t.status.isBegun) (hp : p'.tasks = p.tasks.set i { t with status := st })
    (hb : p'.begun = p.begun) : Once p' := by
  refine ⟨hb ▸ h.nodup, fun j l => ?_⟩
  rw [hb, h.mem, hp]
  by_cases hj : j = i
  · subst hj
    rw [List.getElem?_set_self (List.getElem?_eq_some_iff.1 ht).1, ht]
    simp [hst]
  · rw [List.getElem?_set_ne (Ne.symm hj)]

theorem once_step (h : Once p) (hs : p.step w seq a = some p') : Once p' := by
  cases steps_of_step hs with
  | @start i t ht hst _ =>
    have hnew : i ∉ p.begun.map Prod.fst := by
      intro hi
      obtain ⟨⟨j, l⟩, hjl, rfl⟩ := List.mem_map.1 hi
      obtain ⟨u, hu, -, hb⟩ := (h.mem j l).1 hjl
      rw [ht] at hu
      cases hu
      rw [hst] at hb
      cases hb
    have hbegun : (p.advance w i t t.prog [.begun i t.label]).begun = p.begun ++ [(i, t.label)] :=
      begun_advance i t _ _
    refine ⟨?_, fun j l => ?_⟩
    · rw [hbegun, List.map_append, List.nodup_append]
      refine ⟨h.nodup, List.nodup_singleton _, fun x hx y hy => ?_⟩
      rw [List.mem_singleton.1 hy]
      rintro rfl
      exact hnew hx
    · rw [hbegun, List.mem_append, List.mem_singleton, h.mem]
      by_cases hj : j = i
      · subst hj
        rw [getElem?_advance ht]
        constructor
        · rintro (⟨u, hu, -, hb⟩ | hl)
          · rw [ht] at hu
            cases hu
            rw [hst] at hb
            cases hb
          · cases hl
            exact ⟨_, rfl, rfl, Prog.segment_isBegun _ _ _⟩
        · rintro ⟨u, hu, rfl, -⟩
          cases hu
          exact Or.inr rfl
      · rw [getElem?_advance_ne hj]
        simp [hj]
  | resume ht hst =>
    exact h.same ht (by rw [Prog.segment_isBegun, hst]; rfl) rfl ((begun_advance _ _ _ _).trans (List.append_nil _))
  | stop ht hst _ =>
    exact h.same ht (by rw [Prog.segment_isBegun, hst]; rfl) rfl ((begun_advance _ _ _ _).trans (List.append_nil _))
  | cancel ht hst _ => exact h.same ht (by rw [hst]; rfl) rfl rfl

theorem once_run (h : Once p) (hrun : Run.run (step w seq) p acts = some p') : Once p' :=
  Run.preserved (fun _ _ _ hi hs => once_step hi hs) h hrun

/-- When all tasks have returned, they are the ones begun. -/
theorem Once.perm (h : Once p) (hc : p.Complete) :
    p.begun.Perm ((p.tasks.map Task.label).zipIdx.map Prod.swap) := by
  have hzip : ((p.tasks.map Task.label).zipIdx.map Prod.swap).map Prod.fst = List.range p.tasks.length := by
    rw [List.map_map, show Prod.fst ∘ Prod.swap = (Prod.snd : L × Nat → Nat) from rfl, List.zipIdx_map_snd,
      List.length_map, List.range_eq_range']
  rw [List.perm_ext_iff_of_nodup (List.Nodup.of_map _ h.nodup)
    (List.Nodup.of_map Prod.fst (by rw [hzip]; exact List.nodup_range))]
  rintro ⟨i, l⟩
  rw [h.mem, List.mem_map]
  constructor
  · rintro ⟨t, ht, rfl, -⟩
    refine ⟨(t.label, i), ?_, rfl⟩
    rw [List.mem_zipIdx_iff_getElem?, List.getElem?_map, ht]
    rfl
  · rintro ⟨⟨m, j⟩, hm, hmj⟩
    cases hmj
    rw [List.mem_zipIdx_iff_getElem?, List.getElem?_map, Option.map_eq_some_iff] at hm
    obtain ⟨t, ht, rfl⟩ := hm
    have hret := hc t (List.mem_of_getElem? ht)
    refine ⟨t, ht, rfl, ?_⟩
    cases hst : t.status with
    | returned => rfl
    | waiting | suspended _ | raised | cancelled =>
      rw [hst] at hret
      cases hret

/-! ### Tasks that return -/

/-- No task raises, wherever a run from here leads. -/
def Calm (w seq : Bool) (p : Pool L S) : Prop :=
  ∀ acts p', Run.run (step w seq) p acts = some p' → ∀ t ∈ p'.tasks, t.status.isRaised = false

theorem Calm.run (h : Calm w seq p) (hrun : Run.run (step w seq) p acts = some p') : Calm w seq p' :=
  fun acts' u hu => h (acts ++ acts') u (Run.run_append.2 ⟨p', hrun, hu⟩)

/-- The tasks are only told to stop when one of them has raised. -/
theorem mayCancel_eq_false (seq : Bool) (h : ∀ t ∈ p.tasks, t.status.isRaised = false) : p.mayCancel seq = false := by
  have hno : p.tasks.any (fun t => t.status.isRaised) = false := by
    rw [List.any_eq_false]
    intro t ht
    rw [h t ht]
    exact Bool.false_ne_true
  rw [mayCancel, hno, Bool.and_false]

/-- No task was cancelled before it began. -/
def Kept (p : Pool L S) : Prop := ∀ t ∈ p.tasks, t.status ≠ .cancelled

theorem kept_new (s : S) (ts : List (L × Prog S)) : Kept (new s ts) := by
  intro t ht
  obtain ⟨u, -, rfl⟩ := List.mem_map.1 ht
  exact fun h => (by cases h)

private theorem segment_ne_cancelled (w : Bool) (q : Prog S) (s : S) : (q.segment w s).status ≠ .cancelled := by
  intro h
  have hb := Prog.segment_isBegun w q s
  rw [h] at hb
  cases hb

theorem kept_run (hc : Calm w seq p) (h : Kept p) (hrun : Run.run (step w seq) p acts = some p') : Kept p' := by
  induction acts generalizing p with
  | nil =>
    cases hrun
    exact h
  | cons a acts ih =>
    obtain ⟨u, hu, hrun⟩ := Run.run_cons.1 hrun
    have hone : Run.run (step w seq) p [a] = some u := Run.run_cons.2 ⟨u, hu, rfl⟩
    refine ih (hc.run hone) ?_ hrun
    cases steps_of_step hu with
    | start _ _ _ | resume _ _ | stop _ _ _ => exact forall_set h (segment_ne_cancelled _ _ _)
    | cancel _ _ hm =>
      rw [mayCancel_eq_false seq (hc [] p rfl)] at hm
      cases hm

/-- A task that has just run a part of `q` can go on until it returns, while the others rest. -/
private theorem finish_segment (q : Prog S) {p : Pool L S} {i : Nat} {t : Task L S} {c : S} (hc : Calm w seq p)
    (ht : p.tasks[i]? = some t) (hs : t.status = (q.segment w c).status) :
    ∃ acts p', Run.run (step w seq) p acts = some p' ∧
      (∃ u, p'.tasks[i]? = some u ∧ u.status.isReturned = true) ∧ ∀ j ≠ i, p'.tasks[j]? = p.tasks[j]? := by
  induction q generalizing p t c with
  | ret => exact ⟨[], p, rfl, ⟨t, ht, by rw [hs]; rfl⟩, fun _ _ => rfl⟩
  | raise =>
    have hno := hc [] p rfl t (List.mem_of_getElem? ht)
    rw [hs] at hno
    cases hno
  | read k ih => exact ih c hc ht hs
  | write f k ih => exact ih w hc ht hs
  | pause k ih =>
    have hstep : p.step w seq (.resume i) = some (p.advance w i t (k false) []) := step_resume ht hs
    have hrun : Run.run (step w seq) p [.resume i] = some (p.advance w i t (k false) []) :=
      Run.run_cons.2 ⟨_, hstep, rfl⟩
    obtain ⟨acts, p', hacts, hret, hrest⟩ := ih false (hc.run hrun) (getElem?_advance ht _ _) rfl
    exact ⟨.resume i :: acts, p', Run.run_cons.2 ⟨_, hstep, hacts⟩, hret,
      fun j hj => (hrest j hj).trans (getElem?_advance_ne hj _ _ _)⟩

/-- A task can return next when all before it have. -/
private theorem finish_task (hc : Calm w seq p) (hk : Kept p) {i : Nat} {t : Task L S} (ht : p.tasks[i]? = some t)
    (hbefore : ∀ u ∈ p.tasks.take i, u.status.isReturned = true) :
    ∃ acts p', Run.run (step w seq) p acts = some p' ∧
      (∃ u, p'.tasks[i]? = some u ∧ u.status.isReturned = true) ∧ ∀ j ≠ i, p'.tasks[j]? = p.tasks[j]? := by
  have hmem := List.mem_of_getElem? ht
  cases hst : t.status with
  | returned => exact ⟨[], p, rfl, ⟨t, ht, by rw [hst]; rfl⟩, fun _ _ => rfl⟩
  | raised =>
    have hno := hc [] p rfl t hmem
    rw [hst] at hno
    cases hno
  | cancelled => exact (hk t hmem hst).elim
  | suspended k => exact finish_segment (.pause k) (c := p.cell) hc ht hst
  | waiting =>
    have hm : p.mayStart seq i = true := by
      rw [mayStart, List.all_eq_true.2 hbefore, Bool.or_true]
    have hstep := step_start (w := w) ht hst hm
    have hone : Run.run (step w seq) p [.start i] = some (p.advance w i t t.prog [.begun i t.label]) :=
      Run.run_cons.2 ⟨_, hstep, rfl⟩
    obtain ⟨acts, p', hacts, hret, hrest⟩ := finish_segment t.prog (hc.run hone) (getElem?_advance ht _ _) rfl
    exact ⟨.start i :: acts, p', Run.run_cons.2 ⟨_, hstep, hacts⟩, hret,
      fun j hj => (hrest j hj).trans (getElem?_advance_ne hj _ _ _)⟩

private theorem length_run (h : Run.run (step w seq) p acts = some p') : p'.tasks.length = p.tasks.length := by
  rw [← List.length_map Task.label, labels_run h, List.length_map]

/-- The first `n` tasks can return. -/
private theorem finish_first (hc : Calm w seq p) (hk : Kept p) (n : Nat) :
    ∃ acts p', Run.run (step w seq) p acts = some p' ∧ ∀ u ∈ p'.tasks.take n, u.status.isReturned = true := by
  induction n with
  | zero => exact ⟨[], p, rfl, fun u hu => (by cases hu)⟩
  | succ n ih =>
    obtain ⟨acts, p', hrun, hret⟩ := ih
    cases ht : p'.tasks[n]? with
    | none =>
      refine ⟨acts, p', hrun, ?_⟩
      rw [List.take_add_one, ht, Option.toList_none, List.append_nil]
      exact hret
    | some t =>
      obtain ⟨acts', p'', hrun', ⟨u, hu, hur⟩, hrest⟩ := finish_task (hc.run hrun) (kept_run hc hk hrun) ht hret
      refine ⟨acts ++ acts', p'', Run.run_append.2 ⟨p', hrun, hrun'⟩, fun v hv => ?_⟩
      rw [List.take_add_one, hu, Option.toList_some] at hv
      rcases List.mem_append.1 hv with hv | hv
      · have htake : p''.tasks.take n = p'.tasks.take n := by
          refine List.ext_getElem? fun j => ?_
          rw [List.getElem?_take, List.getElem?_take]
          split
          case isTrue hj => exact hrest j (by omega)
          case isFalse => rfl
        rw [htake] at hv
        exact hret v hv
      · rw [List.mem_singleton.1 hv]
        exact hur

/-- A run in which no task can raise can be completed. -/
theorem completes (hc : Calm w seq p) (hk : Kept p) :
    ∃ acts p', Run.run (step w seq) p acts = some p' ∧ p'.Complete := by
  obtain ⟨acts, p', hrun, hret⟩ := finish_first hc hk p.tasks.length
  refine ⟨acts, p', hrun, fun t ht => hret t ?_⟩
  rw [List.take_of_length_le (length_run hrun).le]
  exact ht

/-- No task has raised, and none does when it goes on. -/
private structure Alive (w : Bool) (p : Pool L S) : Prop where
  prog : ∀ t ∈ p.tasks, t.prog.Returns w
  raised : ∀ t ∈ p.tasks, t.status.isRaised = false
  cont : ∀ t ∈ p.tasks, ∀ k, t.status = .suspended k → (k false).Returns w

private theorem Alive.advance (h : Alive w p) {i : Nat} {t : Task L S} (ht : p.tasks[i]? = some t) {q : Prog S}
    (hq : q.Returns w) (ev : List (Event L S)) : Alive w (p.advance w i t q ev) :=
  have hseg := hq.segment p.cell
  have hprog := h.prog t (List.mem_of_getElem? ht)
  ⟨forall_set h.prog hprog, forall_set h.raised hseg.1, forall_set h.cont hseg.2⟩

private theorem Alive.step (h : Alive w p) (hs : p.step w seq a = some p') : Alive w p' := by
  cases steps_of_step hs with
  | start ht _ _ => exact h.advance ht (h.prog _ (List.mem_of_getElem? ht)) _
  | resume ht hst => exact h.advance ht (h.cont _ (List.mem_of_getElem? ht) _ hst) _
  | stop _ _ hm | cancel _ _ hm =>
    rw [mayCancel_eq_false seq h.raised] at hm
    cases hm

/-- Coroutines that do not raise make a pool in which no task does. -/
theorem calm_new {ts : List (L × Prog S)} (h : ∀ t ∈ ts, t.2.Returns w) : Calm w seq (new s ts) := by
  have hnew : Alive w (new s ts) := by
    refine ⟨fun t ht => ?_, fun t ht => ?_, fun t ht k hk => ?_⟩
    all_goals obtain ⟨u, hu, rfl⟩ := List.mem_map.1 ht
    · exact h u hu
    · rfl
    · cases hk
  intro acts p' hrun
  have hlast : Alive w p' := Run.preserved (fun _ _ _ hi hs => Alive.step hi hs) hnew hrun
  exact hlast.raised

/-! ### One task after the other -/

/-- The first `n` tasks have begun, in their order. -/
structure InOrder (n : Nat) (p : Pool L S) : Prop where
  begun : p.begun.map Prod.fst = List.range n
  status : ∀ i t, p.tasks[i]? = some t → (t.status.isBegun = true ↔ i < n)

theorem inOrder_new (s : S) (ts : List (L × Prog S)) : InOrder 0 (new s ts) := by
  refine ⟨rfl, fun i t ht => ?_⟩
  obtain ⟨u, -, rfl⟩ := List.mem_map.1 (List.mem_of_getElem? ht)
  exact iff_of_false Bool.false_ne_true (Nat.not_lt_zero i)

/-- A task that has begun goes on. -/
private theorem InOrder.advance {n : Nat} (h : InOrder n p) {i : Nat} {t : Task L S} (ht : p.tasks[i]? = some t)
    (hb : t.status.isBegun = true) (q : Prog S) : InOrder n (p.advance w i t q []) := by
  refine ⟨?_, fun j u hu => ?_⟩
  · rw [begun_advance, List.filterMap_nil, List.append_nil]
    exact h.begun
  · by_cases hj : j = i
    · subst hj
      rw [getElem?_advance ht] at hu
      cases hu
      exact iff_of_true (Prog.segment_isBegun _ _ _) ((h.status j t ht).1 hb)
    · rw [getElem?_advance_ne hj] at hu
      exact h.status j u hu

/-- In a sequential pool only the first task that has not begun can begin. -/
private theorem InOrder.start {n : Nat} (h : InOrder n p) {i : Nat} {t : Task L S} (ht : p.tasks[i]? = some t)
    (hs : t.status = .waiting) (hm : p.mayStart true i = true) : i = n := by
  have hle : ¬i < n := by
    intro hlt
    have hb := (h.status i t ht).2 hlt
    rw [hs] at hb
    cases hb
  have hge : ¬n < i := by
    intro hlt
    have hn : n < p.tasks.length := hlt.trans (List.getElem?_eq_some_iff.1 ht).1
    have hret : p.tasks[n].status.isReturned = true := by
      have hall : ∀ u ∈ p.tasks.take i, u.status.isReturned = true := List.all_eq_true.1 hm
      refine hall _ (List.mem_of_getElem? (i := n) ?_)
      rw [List.getElem?_take_of_lt hlt, List.getElem?_eq_getElem hn]
    have hno : ¬p.tasks[n].status.isBegun = true := fun hb =>
      lt_irrefl n ((h.status n _ (List.getElem?_eq_getElem hn)).1 hb)
    cases hst : p.tasks[n].status with
    | returned | suspended _ | raised =>
      rw [hst] at hno
      exact hno rfl
    | waiting | cancelled =>
      rw [hst] at hret
      cases hret
  omega

theorem inOrder_step {n : Nat} (h : InOrder n p) (hs : p.step w true a = some p') : ∃ m, InOrder m p' := by
  cases steps_of_step hs with
  | @start i t ht hst hm =>
    obtain rfl := h.start ht hst hm
    refine ⟨i + 1, ?_, fun j u hu => ?_⟩
    · rw [begun_advance, List.map_append, h.begun, List.range_succ]
      rfl
    · by_cases hj : j = i
      · subst hj
        rw [getElem?_advance ht] at hu
        cases hu
        exact iff_of_true (Prog.segment_isBegun _ _ _) (Nat.lt_succ_self j)
      · rw [getElem?_advance_ne hj] at hu
        rw [h.status j u hu]
        omega
  | resume ht hst => exact ⟨n, h.advance ht (by rw [hst]; rfl) _⟩
  | stop _ _ hm | cancel _ _ hm => cases hm

/-- A sequential pool begins its tasks in their order. -/
theorem inOrder_run {n : Nat} (h : InOrder n p) (hrun : Run.run (step w true) p acts = some p') :
    ∃ m, InOrder m p' :=
  Run.preserved (I := fun q => ∃ m, InOrder m q) (fun _ _ _ ⟨_, hi⟩ hs => inOrder_step hi hs) ⟨n, h⟩ hrun

/-! ### Ends -/

/-- What may become of a task in one step. -/
inductive Next (w : Bool) : Task L S → Task L S → Prop
  | start {t : Task L S} (c : S) (hs : t.status = .waiting) :
      Next w { t with status := (t.prog.segment w c).status } t
  | resume {t : Task L S} {k : Bool → Prog S} (b : Bool) (c : S) (hs : t.status = .suspended k) :
      Next w { t with status := ((k b).segment w c).status } t
  | cancel {t : Task L S} (hs : t.status = .waiting) : Next w { t with status := .cancelled } t

/-- A task that has run a part of `q` does not go on for ever. -/
private theorem acc_segment (q : Prog S) {t : Task L S} {c : S} (hs : t.status = (q.segment w c).status) :
    Acc (Next w) t := by
  induction q generalizing t c with
  | ret | raise =>
    refine ⟨t, fun u hu => ?_⟩
    cases hu with
    | start _ hw | resume _ _ hw | cancel hw =>
      rw [hs] at hw
      cases hw
  | read k ih => exact ih c hs
  | write f k ih => exact ih w hs
  | pause k ih =>
    refine ⟨t, fun u hu => ?_⟩
    cases hu with
    | start _ hw | cancel hw =>
      rw [hs] at hw
      cases hw
    | resume b c' hw =>
      rw [hs] at hw
      cases hw
      exact ih b rfl

theorem next_wellFounded (w : Bool) : WellFounded (Next (L := L) (S := S) w) := by
  have hsettled : ∀ t : Task L S, t.status = .cancelled → Acc (Next w) t := by
    intro t hs
    refine ⟨t, fun u hu => ?_⟩
    cases hu with
    | start _ hw | resume _ _ hw | cancel hw =>
      rw [hs] at hw
      cases hw
  refine ⟨fun t => ⟨t, fun u hu => ?_⟩⟩
  cases hu with
  | start c _ => exact acc_segment t.prog rfl
  | @resume _ k b c _ => exact acc_segment (k b) rfl
  | cancel _ => exact hsettled _ rfl

/-- One task is replaced by what becomes of it. -/
theorem cutExpand_step (h : p.step w seq a = some p') :
    Relation.CutExpand (Next w) (p'.tasks : Multiset (Task L S)) p.tasks := by
  have hset : ∀ {i : Nat} {t t' : Task L S}, p.tasks[i]? = some t → Next w t' t →
      Relation.CutExpand (Next w) (p.tasks.set i t' : Multiset (Task L S)) p.tasks := by
    intro i t t' ht hn
    obtain ⟨hlt, rfl⟩ := List.getElem?_eq_some_iff.1 ht
    have hold := List.getElem_cons_eraseIdx_perm hlt
    have hnew := List.set_perm_cons_eraseIdx hlt t'
    rw [Multiset.coe_eq_coe.2 hnew, ← Multiset.coe_eq_coe.2 hold, ← Multiset.cons_coe, ← Multiset.cons_coe,
      ← Multiset.singleton_add, ← Multiset.singleton_add]
    exact Relation.cutExpand_single_add hn _
  cases steps_of_step h with
  | start ht hs _ => exact hset ht (.start _ hs)
  | resume ht hs => exact hset ht (.resume _ _ hs)
  | stop ht hs _ => exact hset ht (.resume _ _ hs)
  | cancel ht hs _ => exact hset ht (.cancel hs)

/-- No pool goes on for ever. -/
theorem step_wellFounded (w seq : Bool) : WellFounded fun p' p : Pool L S => ∃ a, p.step w seq a = some p' := by
  refine Subrelation.wf (r := InvImage (Relation.CutExpand (Next w)) fun p : Pool L S => (p.tasks : Multiset (Task L S))) ?_
    (InvImage.wf _ (next_wellFounded w).cutExpand)
  rintro p' p ⟨a, h⟩
  exact cutExpand_step h

/-- No task can do anything. -/
def Ended (w seq : Bool) (p : Pool L S) : Prop := ∀ a, p.step w seq a = none

theorem ends (p : Pool L S) : ∃ acts p', Run.run (step w seq) p acts = some p' ∧ p'.Ended w seq := by
  induction p using (step_wellFounded w seq).induction with
  | h p ih =>
    by_cases hend : p.Ended w seq
    · exact ⟨[], p, rfl, hend⟩
    · rw [Ended, not_forall] at hend
      obtain ⟨a, ha⟩ := hend
      obtain ⟨p', h⟩ := Option.ne_none_iff_exists'.1 ha
      obtain ⟨acts, p'', hrun, hend⟩ := ih p' ⟨a, h⟩
      exact ⟨a :: acts, p'', Run.run_cons.2 ⟨p', h, hrun⟩, hend⟩

/-! ### Failures -/

/-- One of the tasks has raised. -/
def Failed (p : Pool L S) : Prop := ∃ t ∈ p.tasks, t.status.isRaised = true

/-- The status of each task that is neither suspended nor raised nor cancelled stays, and so does that of a task that
has ended; only task `i` changes. -/
private theorem ended_stays (h : p.step w seq a = some p') {i : Nat} {t : Task L S} (ht : p.tasks[i]? = some t)
    (hw : t.status ≠ .waiting) (hs : ∀ k, t.status ≠ .suspended k) : p'.tasks[i]? = some t := by
  have hset : ∀ {j : Nat} {u : Task L S} (v : Task L S), p.tasks[j]? = some u →
      (u.status = .waiting ∨ ∃ k, u.status = .suspended k) → (p.tasks.set j v)[i]? = some t := by
    intro j u v hu hor
    rw [List.getElem?_set_ne, ht]
    rintro rfl
    rw [ht] at hu
    cases hu
    rcases hor with h | ⟨k, h⟩
    · exact hw h
    · exact hs k h
  cases steps_of_step h with
  | start hu hst _ => exact hset _ hu (Or.inl hst)
  | resume hu hst => exact hset _ hu (Or.inr ⟨_, hst⟩)
  | stop hu hst _ => exact hset _ hu (Or.inr ⟨_, hst⟩)
  | cancel hu hst _ => exact hset _ hu (Or.inl hst)

/-- A task that has raised stays so. -/
theorem Failed.step (hf : p.Failed) (h : p.step w seq a = some p') : p'.Failed := by
  obtain ⟨t, ht, hr⟩ := hf
  obtain ⟨i, hi⟩ := List.mem_iff_getElem?.1 ht
  refine ⟨t, List.mem_of_getElem? (ended_stays h hi ?_ ?_), hr⟩
  · intro hs
    rw [hs] at hr
    cases hr
  · intro k hs
    rw [hs] at hr
    cases hr

/-- Tasks are cancelled before they begin only when another has raised. -/
def CancelledByFailure (p : Pool L S) : Prop := (∃ t ∈ p.tasks, t.status = .cancelled) → p.Failed

theorem cancelledByFailure_step (hp : CancelledByFailure p) (h : p.step w seq a = some p') :
    CancelledByFailure p' := by
  rintro ⟨t, ht, hs⟩
  -- the task was cancelled before, or is cancelled now because one has raised
  have hold : (∃ u ∈ p.tasks, u.status = .cancelled) ∨ p.Failed := by
    have hset : ∀ {i : Nat} {v : Task L S}, v.status ≠ .cancelled → t ∈ p.tasks.set i v →
        ∃ u ∈ p.tasks, u.status = .cancelled := by
      intro i v hv hmem
      rcases List.mem_or_eq_of_mem_set hmem with hmem | rfl
      · exact ⟨t, hmem, hs⟩
      · exact absurd hs hv
    cases steps_of_step h with
    | start _ _ _ | resume _ _ | stop _ _ _ => exact Or.inl (hset (segment_ne_cancelled _ _ _) ht)
    | cancel _ _ hm =>
      rw [mayCancel, Bool.and_eq_true, List.any_eq_true] at hm
      exact Or.inr hm.2
  exact (hold.elim hp id).step h

theorem cancelledByFailure_run (s : S) (ts : List (L × Prog S))
    (hrun : Run.run (step w seq) (new s ts) acts = some p) : CancelledByFailure p := by
  refine Run.preserved (I := CancelledByFailure) (fun _ _ _ hi h => cancelledByFailure_step hi h) ?_ hrun
  rintro ⟨t, ht, hs⟩
  obtain ⟨u, -, rfl⟩ := List.mem_map.1 ht
  cases hs

/-- A pool that is not sequential ends when each task has returned, has raised or was cancelled before it began. -/
theorem ended_of_concurrent (h : p.Ended w false) {t : Task L S} (ht : t ∈ p.tasks) :
    t.status = .returned ∨ t.status = .raised ∨ t.status = .cancelled := by
  obtain ⟨i, hi⟩ := List.mem_iff_getElem?.1 ht
  cases hs : t.status with
  | returned => exact Or.inl rfl
  | raised => exact Or.inr (Or.inl rfl)
  | cancelled => exact Or.inr (Or.inr rfl)
  | waiting =>
    have hstep := h (.start i)
    rw [step_start hi hs rfl] at hstep
    cases hstep
  | suspended k =>
    have hstep := h (.resume i)
    rw [step_resume hi hs] at hstep
    cases hstep

/-- In a sequential pool all that have begun, the last perhaps not, have returned. -/
structure Front (n : Nat) (p : Pool L S) : Prop where
  order : InOrder n p
  before : ∀ i t, p.tasks[i]? = some t → i + 1 < n → t.status.isReturned = true
  uncancelled : ∀ t ∈ p.tasks, t.status ≠ .cancelled

theorem front_new (s : S) (ts : List (L × Prog S)) : Front 0 (new s ts) :=
  ⟨inOrder_new s ts, fun _ _ _ hlt => absurd hlt (Nat.not_lt_zero _), kept_new s ts⟩

/-- Only the last can be suspended or have raised. -/
theorem Front.last {n : Nat} (h : Front n p) {i : Nat} {t : Task L S} (ht : p.tasks[i]? = some t)
    (hb : t.status.isBegun = true) (hr : t.status.isReturned = false) : n = i + 1 := by
  have hlt := (h.order.status i t ht).1 hb
  by_contra hne
  have hret := h.before i t ht (by omega)
  rw [hr] at hret
  cases hret

/-- The last goes on. -/
private theorem Front.resume {n : Nat} (h : Front n p) {i : Nat} {t : Task L S} (ht : p.tasks[i]? = some t)
    {k : Bool → Prog S} (hs : t.status = .suspended k) (q : Prog S) : Front n (p.advance w i t q []) := by
  have hb : t.status.isBegun = true := by rw [hs]; rfl
  have hlast := h.last ht hb (by rw [hs]; rfl)
  refine ⟨h.order.advance ht hb q, fun j u hu hlt => ?_, forall_set h.uncancelled (segment_ne_cancelled _ _ _)⟩
  rw [getElem?_advance_ne (by omega)] at hu
  exact h.before j u hu hlt

theorem front_step {n : Nat} (h : Front n p) (hs : p.step w true a = some p') : ∃ m, Front m p' := by
  obtain ⟨m, hm⟩ := inOrder_step h.order hs
  cases steps_of_step hs with
  | @start i t ht hst hmay =>
    obtain rfl := h.order.start ht hst hmay
    have hlen : m = i + 1 := by
      have hbegun := congrArg List.length hm.begun
      rw [begun_advance, List.map_append, h.order.begun, List.length_append, List.length_range, List.length_range]
        at hbegun
      exact hbegun.symm
    -- all before the new one have returned
    refine ⟨m, hm, fun j u hu hlt => ?_, forall_set h.uncancelled (segment_ne_cancelled _ _ _)⟩
    have hji : j < i := by omega
    have hall : ∀ u ∈ p.tasks.take i, u.status.isReturned = true := List.all_eq_true.1 hmay
    rw [getElem?_advance_ne (Nat.ne_of_lt hji)] at hu
    exact hall u (List.mem_of_getElem? (i := j) (by rw [List.getElem?_take_of_lt hji, hu]))
  | resume ht hst => exact ⟨n, h.resume ht hst _⟩
  | stop _ _ hmay | cancel _ _ hmay => cases hmay

theorem front_run {n : Nat} (h : Front n p) (hrun : Run.run (step w true) p acts = some p') : ∃ m, Front m p' :=
  Run.preserved (I := fun q => ∃ m, Front m q) (fun _ _ _ ⟨_, hi⟩ hs => front_step hi hs) ⟨n, h⟩ hrun

/-- After a failure nothing happens any more. -/
theorem Front.stops {n : Nat} (h : Front n p) {i : Nat} {t : Task L S} (ht : p.tasks[i]? = some t)
    (hr : t.status = .raised) : n = i + 1 ∧ p.Ended w true := by
  have hlast := h.last ht (by rw [hr]; rfl) (by rw [hr]; rfl)
  refine ⟨hlast, fun a => ?_⟩
  by_contra hne
  obtain ⟨p', hstep⟩ := Option.ne_none_iff_exists'.1 hne
  cases steps_of_step hstep with
  | @start j u hu hst hmay =>
    obtain rfl := h.order.start hu hst hmay
    -- it would have to wait for the one that has raised
    have hall : ∀ u ∈ p.tasks.take j, u.status.isReturned = true := List.all_eq_true.1 hmay
    have hret := hall t (List.mem_of_getElem? (i := i) (by rw [List.getElem?_take_of_lt (by omega), ht]))
    rw [hr] at hret
    cases hret
  | @resume j u k hu hst =>
    have hj := h.last hu (by rw [hst]; rfl) (by rw [hst]; rfl)
    obtain rfl : i = j := by omega
    rw [ht] at hu
    cases hu
    rw [hr] at hst
    cases hst
  | stop _ _ hmay | cancel _ _ hmay => cases hmay

/-- A sequential pool ends when all tasks have returned, or one has raised. -/
theorem Front.ended {n : Nat} (h : Front n p) (hend : p.Ended w true) : p.Complete ∨ p.Failed := by
  by_contra hno
  rw [not_or] at hno
  have hbegun : ∀ (i : Nat) (t : Task L S), p.tasks[i]? = some t → t.status.isBegun = true → t.status.isReturned = true := by
    intro i t ht hb
    cases hs : t.status with
    | returned => rfl
    | raised => exact absurd ⟨t, List.mem_of_getElem? ht, by rw [hs]; rfl⟩ hno.2
    | suspended k =>
      have hstep := hend (.resume i)
      rw [step_resume ht hs] at hstep
      cases hstep
    | waiting | cancelled =>
      rw [hs] at hb
      cases hb
  -- the first that has not begun could begin
  have hge : p.tasks.length ≤ n := by
    by_contra hlt
    have hn := List.getElem?_eq_getElem (Nat.lt_of_not_le hlt)
    have hunbegun : ¬p.tasks[n].status.isBegun = true := fun hb => lt_irrefl n ((h.order.status n _ hn).1 hb)
    have hmay : p.mayStart true n = true := by
      refine List.all_eq_true.2 fun u hu => ?_
      obtain ⟨j, hj⟩ := List.mem_iff_getElem?.1 hu
      have hjn : j < n := (List.getElem?_eq_some_iff.1 hj).1.trans_le (List.length_take_le n p.tasks)
      rw [List.getElem?_take_of_lt hjn] at hj
      exact hbegun j u hj ((h.order.status j u hj).2 hjn)
    cases hs : p.tasks[n].status with
    | waiting =>
      have hstep := hend (.start n)
      rw [step_start hn hs hmay] at hstep
      cases hstep
    | cancelled => exact h.uncancelled _ (List.mem_of_getElem? hn) hs
    | suspended k | returned | raised =>
      rw [hs] at hunbegun
      exact hunbegun rfl
  refine hno.1 fun t ht => ?_
  obtain ⟨i, hi⟩ := List.mem_iff_getElem?.1 ht
  have hlt := (List.getElem?_eq_some_iff.1 hi).1
  exact hbegun i t hi ((h.order.status i t hi).2 (by omega))

end Pool

end Tasks
