import Anywise.Types

/-!
# Rebuilding an entity from its events

`rebuild` makes an entity from the first event and calls its `apply` for each of the others; what `apply` returns is
dropped.  `apply` may change the entity in place and return it, or leave it and return another one.  The entity
rebuilt is what the calls of `apply`, each on the result of the one before, come to exactly when `apply` leaves in
the entity it is called on the state of the one it returns (`rebuild_folds_iff`).
-/

namespace Anywise.Messages

/-- The `IndexError` of `events[0]`, or an exception that `apply` raises. -/
inductive EntityErr
  | indexError
  | other (id : Nat)

/-- An entity class: what `cls.apply(event)` and `self.apply(event)` do to the objects `W` of the process, and the
reference to the entity they return. -/
structure EntityClass (W R E : Type) where
  applyCls : W → E → Except EntityErr (W × R)
  applySelf : W → R → E → Except EntityErr (W × R)

section Rebuild

variable {W R E : Type}

/-- The loop in `rebuild`. -/
def rebuildLoop (cls : EntityClass W R E) (w : W) (self : R) : List E → Except EntityErr (W × R)
  | [] => .ok (w, self)
  | e :: rest =>
    match cls.applySelf w self e with
    | .error err => .error err
    -- `self.apply(e)` is a statement of its own
    | .ok (w, _) => rebuildLoop cls w self rest

/-- `cls.rebuild(events)` -/
def rebuild (cls : EntityClass W R E) (w : W) : List E → Except EntityErr (W × R)
  | [] => .error .indexError
  | create :: rest =>
    match cls.applyCls w create with
    | .error err => .error err
    | .ok (w, self) => rebuildLoop cls w self rest

/-- `Entity.rebuild` -/
def Entity.rebuild (cls : EntityClass W R E) (w : W) (events : List E) : Except EntityErr (W × R) :=
  Messages.rebuild cls w events

/-- `PydanticEntity.rebuild` -/
def PydanticEntity.rebuild (cls : EntityClass W R E) (w : W) (events : List E) : Except EntityErr (W × R) :=
  Messages.rebuild cls w events

/-! ### The fold of `apply` -/

/-- `apply(… apply(entity, e1) …, en)` -/
def applyAll (cls : EntityClass W R E) (w : W) (entity : R) : List E → Except EntityErr (W × R)
  | [] => .ok (w, entity)
  | e :: rest =>
    match cls.applySelf w entity e with
    | .error err => .error err
    | .ok (w, entity) => applyAll cls w entity rest

/-- `apply(… apply(apply(e0), e1) …, en)` -/
def applied (cls : EntityClass W R E) (w : W) : List E → Except EntityErr (W × R)
  | [] => .error .indexError
  | e :: rest =>
    match cls.applyCls w e with
    | .error err => .error err
    | .ok (w, entity) => applyAll cls w entity rest

/-- `apply` always returns the entity it is called on. -/
def EntityClass.ReturnsSelf (cls : EntityClass W R E) : Prop :=
  ∀ w r e w' r', cls.applySelf w r e = .ok (w', r') → r' = r

variable {cls : EntityClass W R E}

theorem rebuildLoop_append (w : W) (self : R) (es es' : List E) :
    rebuildLoop cls w self (es ++ es') =
      (rebuildLoop cls w self es).bind fun p => rebuildLoop cls p.1 p.2 es' := by
  induction es generalizing w with
  | nil => rfl
  | cons e es ih =>
    rw [List.cons_append, rebuildLoop, rebuildLoop]
    cases cls.applySelf w self e with
    | error err => rfl
    | ok p => exact ih p.1

theorem rebuild_append (w : W) {es : List E} (hes : es ≠ []) (es' : List E) :
    Messages.rebuild cls w (es ++ es') =
      (Messages.rebuild cls w es).bind fun p => rebuildLoop cls p.1 p.2 es' := by
  obtain ⟨create, rest, rfl⟩ := List.exists_cons_of_ne_nil hes
  rw [List.cons_append, Messages.rebuild, Messages.rebuild]
  cases cls.applyCls w create with
  | error err => rfl
  | ok p => exact rebuildLoop_append p.1 p.2 rest es'

/-- An entity class that works in place hides that the result is dropped. -/
theorem rebuild_of_returnsSelf (hself : cls.ReturnsSelf) (w : W) (es : List E) :
    Messages.rebuild cls w es = applied cls w es := by
  have hloop : ∀ (rest : List E) (w : W) (r : R), rebuildLoop cls w r rest = applyAll cls w r rest := by
    intro rest
    induction rest with
    | nil => exact fun w r => rfl
    | cons e rest ih =>
      intro w r
      rw [rebuildLoop, applyAll]
      cases happ : cls.applySelf w r e with
      | error err => rfl
      | ok p =>
        obtain rfl := hself w r e p.1 p.2 happ
        exact ih p.1 p.2
  cases es with
  | nil => rfl
  | cons e rest =>
    rw [Messages.rebuild, applied]
    cases cls.applyCls w e with
    | error err => rfl
    | ok p => exact hloop rest p.1 p.2

end Rebuild

/-! ### Entities with their states -/

/-- What a call of `apply` on an entity does: it changes the entity in place and returns it, or it returns another
entity, `left` being the state of the one it was called on. -/
inductive Applied (S : Type)
  | inPlace (state : S)
  | copy (left made : S)

/-- The state of the entity `apply` was called on. -/
def Applied.left {S : Type} : Applied S → S
  | .inPlace s => s
  | .copy l _ => l

/-- The state of the entity `apply` returns. -/
def Applied.returned {S : Type} : Applied S → S
  | .inPlace s => s
  | .copy _ m => m

/-- An implementation of `apply` for entities with the fields `S`: for the first event, and on an entity. -/
structure EntityImpl (S E : Type) where
  create : E → Except EntityErr S
  apply : S → E → Except EntityErr (Applied S)

namespace EntityImpl

variable {S E : Type}

/-- The entity class: the objects are the entities made so far, a reference is a place among them. -/
def entityClass (impl : EntityImpl S E) : EntityClass (List S) Nat E where
  applyCls heap e :=
    match impl.create e with
    | .error err => .error err
    | .ok s => .ok (heap ++ [s], heap.length)
  applySelf heap r e :=
    match heap[r]? with
    -- no reference dangles
    | none => .ok (heap, r)
    | some s =>
      match impl.apply s e with
      | .error err => .error err
      | .ok (.inPlace s) => .ok (heap.set r s, r)
      | .ok (.copy left made) => .ok (heap.set r left ++ [made], heap.length)

/-- The state of the entity returned. -/
def stateOf (res : Except EntityErr (List S × Nat)) : Except EntityErr (Option S) := res.map fun p => p.1[p.2]?

/-- `rebuild` agrees with the fold of `apply`, and one more event with one more `apply`. -/
structure Folds (impl : EntityImpl S E)
    (rebuild : EntityClass (List S) Nat E → List S → List E → Except EntityErr (List S × Nat)) : Prop where
  fold : ∀ heap es, es ≠ [] →
    stateOf (rebuild impl.entityClass heap es) = stateOf (applied impl.entityClass heap es)
  snoc : ∀ heap es e, es ≠ [] → stateOf (rebuild impl.entityClass heap (es ++ [e])) =
    stateOf ((rebuild impl.entityClass heap es).bind fun p => impl.entityClass.applySelf p.1 p.2 e)

/-- An entity that calls of `apply` return, one on the other. -/
inductive Reached (impl : EntityImpl S E) : S → Prop
  | create {e : E} {s : S} (h : impl.create e = .ok s) : Reached impl s
  | apply {s : S} {e : E} {a : Applied S} (hs : Reached impl s) (h : impl.apply s e = .ok a) :
      Reached impl a.returned

/-- `apply` leaves in the entity it is called on the state of the one it returns. -/
def LeavesReturned (impl : EntityImpl S E) : Prop :=
  ∀ s, impl.Reached s → ∀ e a, impl.apply s e = .ok a → a.left = a.returned

/-! ### States -/

/-- The states the events lead to when each call goes on with the entity that `pick` chooses. -/
def states (impl : EntityImpl S E) (pick : Applied S → S) (s : S) : List E → Except EntityErr S
  | [] => .ok s
  | e :: rest =>
    match impl.apply s e with
    | .error err => .error err
    | .ok a => impl.states pick (pick a) rest

variable {impl : EntityImpl S E}

theorem states_append (pick : Applied S → S) (s : S) (es es' : List E) :
    impl.states pick s (es ++ es') = (impl.states pick s es).bind fun s' => impl.states pick s' es' := by
  induction es generalizing s with
  | nil => rfl
  | cons e es ih =>
    rw [List.cons_append, states, states]
    cases impl.apply s e with
    | error err => rfl
    | ok a => exact ih (pick a)

/-- `self.apply(e)`: what it leaves at the reference, and the state of what it returns. -/
private theorem applySelf_eq {heap : List S} {r : Nat} {s : S} (hs : heap[r]? = some s) (e : E) :
    (∃ err, impl.apply s e = .error err ∧ impl.entityClass.applySelf heap r e = .error err) ∨
      ∃ a heap' r', impl.apply s e = .ok a ∧ impl.entityClass.applySelf heap r e = .ok (heap', r') ∧
        heap'[r]? = some a.left ∧ heap'[r']? = some a.returned := by
  have hlt : r < heap.length := (List.getElem?_eq_some_iff.1 hs).1
  cases happ : impl.apply s e with
  | error err => exact Or.inl ⟨err, rfl, by simp [entityClass, hs, happ]⟩
  | ok a =>
    right
    cases a with
    | inPlace s' =>
      refine ⟨.inPlace s', heap.set r s', r, rfl, by simp [entityClass, hs, happ], ?_, ?_⟩ <;>
        exact List.getElem?_set_self hlt
    | copy left made =>
      refine ⟨.copy left made, heap.set r left ++ [made], heap.length, rfl, by simp [entityClass, hs, happ], ?_, ?_⟩
      · rw [List.getElem?_append_left (by simpa using hlt), List.getElem?_set_self hlt]
        rfl
      · simp [Applied.returned]

/-- The loop of `rebuild` goes on with the entity it has, whatever state that is left in. -/
theorem stateOf_rebuildLoop {heap : List S} {r : Nat} {s : S} (hs : heap[r]? = some s) (es : List E) :
    stateOf (rebuildLoop impl.entityClass heap r es) = (impl.states Applied.left s es).map some := by
  induction es generalizing heap s with
  | nil =>
    show Except.ok heap[r]? = _
    rw [hs]
    rfl
  | cons e es ih =>
    rw [rebuildLoop, states]
    rcases applySelf_eq hs e with ⟨err, happ, hcall⟩ | ⟨a, heap', r', happ, hcall, hleft, -⟩
    · rw [happ, hcall]
      rfl
    · rw [happ, hcall]
      exact ih hleft

/-- The fold goes on with what `apply` returns. -/
theorem stateOf_applyAll {heap : List S} {r : Nat} {s : S} (hs : heap[r]? = some s) (es : List E) :
    stateOf (applyAll impl.entityClass heap r es) = (impl.states Applied.returned s es).map some := by
  induction es generalizing heap r s with
  | nil =>
    show Except.ok heap[r]? = _
    rw [hs]
    rfl
  | cons e es ih =>
    rw [applyAll, states]
    rcases applySelf_eq hs e with ⟨err, happ, hcall⟩ | ⟨a, heap', r', happ, hcall, -, hret⟩
    · rw [happ, hcall]
      rfl
    · rw [happ, hcall]
      exact ih hret

/-- The first event makes an entity, for both. -/
private theorem stateOf_cons (heap : List S) {e : E} {s : S} (hs : impl.create e = .ok s) (rest : List E) :
    stateOf (Messages.rebuild impl.entityClass heap (e :: rest)) = (impl.states Applied.left s rest).map some ∧
      stateOf (applied impl.entityClass heap (e :: rest)) = (impl.states Applied.returned s rest).map some := by
  have hcls : impl.entityClass.applyCls heap e = .ok (heap ++ [s], heap.length) := by simp [entityClass, hs]
  have hget : (heap ++ [s])[heap.length]? = some s := by simp
  constructor
  · rw [Messages.rebuild, hcls]
    exact stateOf_rebuildLoop hget rest
  · rw [applied, hcls]
    exact stateOf_applyAll hget rest

private theorem map_some_inj {x y : Except EntityErr S} (h : x.map some = y.map some) : x = y := by
  cases x <;> cases y <;> simp_all [Except.map]

theorem reached_states {s s' : S} {es : List E} (hs : impl.Reached s)
    (h : impl.states Applied.returned s es = .ok s') : impl.Reached s' := by
  induction es generalizing s with
  | nil =>
    cases h
    exact hs
  | cons e es ih =>
    rw [states] at h
    split at h
    · cases h
    · rename_i a happ
      exact ih (.apply hs happ) h

/-- Every entity reached has been reached by events. -/
theorem states_of_reached {s : S} (h : impl.Reached s) :
    ∃ e s₀ es, impl.create e = .ok s₀ ∧ impl.states Applied.returned s₀ es = .ok s := by
  induction h with
  | @create e s hc => exact ⟨e, s, [], hc, rfl⟩
  | @apply s e a _ happ ih =>
    obtain ⟨e₀, s₀, es, hc, hs⟩ := ih
    refine ⟨e₀, s₀, es ++ [e], hc, ?_⟩
    rw [states_append, hs]
    simp [Except.bind, states, happ]

/-- Where `apply` leaves what it returns, both come to the same state. -/
theorem states_eq (hk : impl.LeavesReturned) {s : S} (hs : impl.Reached s) (es : List E) :
    impl.states Applied.left s es = impl.states Applied.returned s es := by
  induction es generalizing s with
  | nil => rfl
  | cons e es ih =>
    rw [states, states]
    cases happ : impl.apply s e with
    | error err => rfl
    | ok a =>
      simp only
      rw [hk s hs e a happ]
      exact ih (.apply hs happ)

/-! ### When `rebuild` is the fold -/

private theorem fold_of_leaves (hk : impl.LeavesReturned) (heap : List S) (es : List E) :
    stateOf (Messages.rebuild impl.entityClass heap es) = stateOf (applied impl.entityClass heap es) := by
  cases es with
  | nil => rfl
  | cons e rest =>
    cases hs : impl.create e with
    | error err => simp [Messages.rebuild, applied, entityClass, hs]
    | ok s =>
      obtain ⟨hrebuild, hfold⟩ := stateOf_cons heap hs rest
      rw [hrebuild, hfold, states_eq hk (.create hs)]

/-- The entity rebuilt is one that `apply` may return. -/
private theorem reached_rebuild (hk : impl.LeavesReturned) {heap heap' : List S} {r : Nat} {es : List E}
    (h : Messages.rebuild impl.entityClass heap es = .ok (heap', r)) : ∃ s, heap'[r]? = some s ∧ impl.Reached s := by
  cases es with
  | nil => cases h
  | cons e rest =>
    cases hs : impl.create e with
    | error err =>
      simp [Messages.rebuild, entityClass, hs] at h
    | ok s =>
      have hstate := (stateOf_cons heap hs rest).1
      rw [h, states_eq hk (.create hs)] at hstate
      cases hst : impl.states Applied.returned s rest with
      | error err =>
        rw [hst] at hstate
        cases hstate
      | ok s' =>
        rw [hst] at hstate
        exact ⟨s', Except.ok.inj hstate, reached_states (.create hs) hst⟩

private theorem snoc_of_leaves (hk : impl.LeavesReturned) (heap : List S) {es : List E} (hes : es ≠ []) (e : E) :
    stateOf (Messages.rebuild impl.entityClass heap (es ++ [e])) =
      stateOf ((Messages.rebuild impl.entityClass heap es).bind fun p =>
        impl.entityClass.applySelf p.1 p.2 e) := by
  rw [rebuild_append heap hes]
  cases hres : Messages.rebuild impl.entityClass heap es with
  | error err => rfl
  | ok p =>
    obtain ⟨s, hget, hs⟩ := reached_rebuild hk hres
    show stateOf (rebuildLoop impl.entityClass p.1 p.2 [e]) = stateOf (impl.entityClass.applySelf p.1 p.2 e)
    rw [stateOf_rebuildLoop hget, states]
    rcases applySelf_eq hget e with ⟨err, happ, hcall⟩ | ⟨a, heap', r', happ, hcall, -, hret⟩
    · rw [happ, hcall]
      rfl
    · rw [happ, hcall]
      show Except.ok (some a.left) = Except.ok heap'[r']?
      rw [hret, hk s hs e a happ]

private theorem leaves_of_fold
    (h : ∀ heap es, es ≠ [] →
      stateOf (Messages.rebuild impl.entityClass heap es) = stateOf (applied impl.entityClass heap es)) :
    impl.LeavesReturned := by
  intro s hs e a happ
  obtain ⟨e₀, s₀, es, hc, hst⟩ := states_of_reached hs
  have heq : ∀ rest : List E, impl.states Applied.left s₀ rest = impl.states Applied.returned s₀ rest := by
    intro rest
    obtain ⟨hrebuild, hfold⟩ := stateOf_cons [] hc rest
    have := h [] (e₀ :: rest) (List.cons_ne_nil _ _)
    rw [hrebuild, hfold] at this
    exact map_some_inj this
  -- up to `s` both are the same, and then the call on `s` tells
  have hleft : impl.states Applied.left s₀ es = .ok s := (heq es).trans hst
  have hone := heq (es ++ [e])
  rw [states_append, states_append, hleft, hst] at hone
  simpa [Except.bind, states, happ] using hone

end EntityImpl

open EntityImpl in
/-- `rebuild` is the left fold of `apply` exactly for the implementations that leave in the entity they are called on
the state of the one they return; so for all that return the entity itself, whatever else they do. -/
theorem rebuild_folds_iff {S E : Type} (impl : EntityImpl S E) :
    (Folds impl Entity.rebuild ↔ impl.LeavesReturned) ∧
    (Folds impl PydanticEntity.rebuild ↔ impl.LeavesReturned) ∧
    ∀ (W R : Type) (cls : EntityClass W R E), cls.ReturnsSelf → ∀ w es,
      Entity.rebuild cls w es = applied cls w es ∧ PydanticEntity.rebuild cls w es = applied cls w es := by
  have hfolds : Folds impl Messages.rebuild ↔ impl.LeavesReturned := by
    constructor
    · exact fun h => leaves_of_fold h.fold
    · exact fun hk => ⟨fun heap es _ => fold_of_leaves hk heap es, fun heap es e hes => snoc_of_leaves hk heap hes e⟩
  refine ⟨hfolds, hfolds, fun W R cls hself w es => ?_⟩
  have heq := rebuild_of_returnsSelf hself w es
  exact ⟨heq, heq⟩

/-! ### A todo that is copied -/

namespace TodoEntity

inductive TodoEvent
  | created (title : String)
  | retitled (title : String)

/-- A frozen `Todo`: `TodoRetitled` returns a copy with the new title. -/
def frozenTodo : EntityImpl String TodoEvent where
  create
    | .created title => .ok title
    | .retitled _ => .error (.other 0)
  apply
    | _, .created _ => .error (.other 0)
    | old, .retitled title => .ok (.copy old title)

/-- `Todo` of the demo: `TodoRetitled` sets the title. -/
def todo : EntityImpl String TodoEvent where
  create
    | .created title => .ok title
    | .retitled _ => .error (.other 0)
  apply
    | _, .created _ => .error (.other 0)
    | _, .retitled title => .ok (.inPlace title)

/-- The new title is lost. -/
theorem frozenTodo_not_retitled : ¬ EntityImpl.Folds frozenTodo Entity.rebuild ∧
    ¬ EntityImpl.Folds frozenTodo PydanticEntity.rebuild := by
  constructor
  · intro h
    have hfold : some "buy milk" = some "buy bread" :=
      Except.ok.inj (h.fold [] [.created "buy milk", .retitled "buy bread"] (by simp))
    simp at hfold
  · intro h
    have hfold : some "buy milk" = some "buy bread" :=
      Except.ok.inj (h.fold [] [.created "buy milk", .retitled "buy bread"] (by simp))
    simp at hfold

example : EntityImpl.LeavesReturned todo := by
  intro s _ e a h
  cases e <;> cases h
  rfl

end TodoEntity

end Anywise.Messages
