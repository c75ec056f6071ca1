import Anywise.Demo.Todo
import Mathlib.Data.List.Perm.Basic

/-!
# The todo table and the event store

What each write to the todo table was is recorded in order.  The row of a todo is always what `Todo.rebuild` makes of
the writes of this todo, and the event store has each of their events at most once, but perhaps in another order
(`todos_match_writes`).  When no call writes a todo while another is between its two writes for it, and none raises
there, the row is what `Todo.rebuild` makes of the stored events (`Undisturbed`).
-/

namespace Anywise.Demo

open Messages

/-! ### Rebuilding a todo -/

/-- The title after the events. -/
def lastTitle (title : String) (events : List TodoEvent) : String :=
  events.foldl (fun title e =>
    match e with
    | .created _ _ _ => title
    | .retitled _ title => title) title

theorem states_todo (todo : Todo) (events : List TodoEvent) :
    Todo.apply.states Applied.left todo events = .ok { todo with title := lastTitle todo.title events } := by
  induction events generalizing todo with
  | nil => rfl
  | cons e events ih =>
    cases e with
    | created base title content => exact ih todo
    | retitled base title => exact ih { todo with title := title }

theorem rebuild_created (base : EventBase) (title content : String) (rest : List TodoEvent) :
    Todo.rebuild (.created base title content :: rest) =
      .ok (some { todoId := base.entityId, title := lastTitle title rest, content := content }) := by
  rw [Todo.rebuild, Messages.rebuild]
  show EntityImpl.stateOf (rebuildLoop Todo.apply.entityClass
    [{ todoId := base.entityId, title := title, content := content }] 0 rest) = _
  rw [EntityImpl.stateOf_rebuildLoop (s := { todoId := base.entityId, title := title, content := content }) rfl,
    states_todo]
  rfl

/-- `apply` is called on the class for the first event. -/
theorem rebuild_retitled (base : EventBase) (title : String) (rest : List TodoEvent) :
    Todo.rebuild (.retitled base title :: rest) = .error Todo.typeError := rfl

/-- One more event changes the title. -/
theorem rebuild_snoc {events : List TodoEvent} {todo : Todo} (h : Todo.rebuild events = .ok (some todo))
    (base : EventBase) (title : String) :
    Todo.rebuild (events ++ [.retitled base title]) = .ok (some { todo with title := title }) := by
  cases events with
  | nil => cases h
  | cons e rest =>
    cases e with
    | retitled base' title' => cases h
    | created base' title' content =>
      rw [rebuild_created] at h
      cases h
      rw [List.cons_append, rebuild_created, lastTitle, List.foldl_append]
      rfl

/-! ### The writes to the todo table -/

/-- The events of the todo. -/
def ofTodo (todoId : String) (events : List TodoEvent) : List TodoEvent :=
  events.filter fun e => e.entityId == todoId

/-- The table after these writes: a todo is inserted once, and retitled afterwards. -/
inductive Written : List TodoEvent → List Todo → Prop
  | nil : Written [] []
  | create {log : List TodoEvent} {todos : List Todo} (h : Written log todos) (base : EventBase)
      (title content : String) (hnew : base.entityId ∉ todos.map Todo.todoId) :
      Written (log ++ [.created base title content])
        (todos ++ [{ todoId := base.entityId, title := title, content := content }])
  | retitle {log : List TodoEvent} {todos : List Todo} (h : Written log todos) (base : EventBase) (title : String)
      (hmem : base.entityId ∈ todos.map Todo.todoId) :
      Written (log ++ [.retitled base title]) (TodoRepository.retitle todos base.entityId title)

theorem map_todoId_retitle (todos : List Todo) (todoId title : String) :
    (TodoRepository.retitle todos todoId title).map Todo.todoId = todos.map Todo.todoId := by
  rw [TodoRepository.retitle, List.map_map]
  refine List.map_congr_left fun todo _ => ?_
  simp only [Function.comp_apply]
  split <;> rfl

theorem ofTodo_snoc (todoId : String) (log : List TodoEvent) (e : TodoEvent) :
    ofTodo todoId (log ++ [e]) = ofTodo todoId log ++ if e.entityId = todoId then [e] else [] := by
  rw [ofTodo, List.filter_append]
  by_cases h : e.entityId = todoId <;> simp [ofTodo, h]

/-- The ids of the rows are unique; without a row there was no write, and a row is what the writes come to. -/
theorem Written.rows {log : List TodoEvent} {todos : List Todo} (h : Written log todos) :
    (todos.map Todo.todoId).Nodup ∧ (∀ i, i ∉ todos.map Todo.todoId → ofTodo i log = []) ∧
      ∀ todo ∈ todos, Todo.rebuild (ofTodo todo.todoId log) = .ok (some todo) := by
  induction h with
  | nil => exact ⟨List.nodup_nil, fun _ _ => rfl, fun todo ht => (by cases ht)⟩
  | @create log todos _ base title content hnew ih =>
    obtain ⟨hnodup, habsent, hrow⟩ := ih
    refine ⟨?_, fun i hi => ?_, fun todo ht => ?_⟩
    · rw [List.map_append, List.nodup_append]
      refine ⟨hnodup, List.nodup_singleton _, fun a ha b hb => ?_⟩
      rw [List.mem_singleton.1 hb]
      rintro rfl
      exact hnew ha
    · rw [List.map_append, List.mem_append, not_or] at hi
      rw [ofTodo_snoc, habsent i hi.1, if_neg, List.append_nil]
      exact fun heq => hi.2 (List.mem_singleton.2 heq.symm)
    · rw [ofTodo_snoc]
      rcases List.mem_append.1 ht with ht | ht
      · rw [if_neg, List.append_nil]
        · exact hrow todo ht
        · exact fun heq => hnew (List.mem_map.2 ⟨todo, ht, heq.symm⟩)
      · cases List.mem_singleton.1 ht
        rw [habsent base.entityId hnew, List.nil_append, if_pos (by rfl)]
        exact rebuild_created base title content []
  | @retitle log todos _ base title hmem ih =>
    obtain ⟨hnodup, habsent, hrow⟩ := ih
    rw [map_todoId_retitle]
    refine ⟨hnodup, fun i hi => ?_, fun todo ht => ?_⟩
    · rw [ofTodo_snoc, habsent i hi, if_neg, List.append_nil]
      rintro rfl
      exact hi hmem
    · obtain ⟨old, hold, rfl⟩ := List.mem_map.1 ht
      rw [ofTodo_snoc]
      by_cases hid : old.todoId = base.entityId
      · rw [if_pos hid, if_pos]
        · exact rebuild_snoc (hrow old hold) base title
        · exact hid.symm
      · rw [if_neg hid, if_neg, List.append_nil]
        · exact hrow old hold
        · exact fun heq => hid heq.symm

/-- With unique ids `get` finds the row of the todo. -/
theorem get_eq {todos : List Todo} (hnodup : (todos.map Todo.todoId).Nodup) (i : String) :
    (i ∉ todos.map Todo.todoId ∧ TodoRepository.get todos i = .ok none) ∨
      ∃ todo ∈ todos, todo.todoId = i ∧ TodoRepository.get todos i = .ok (some todo) := by
  have hlen : ((todos.filter fun row => row.todoId == i).map Todo.todoId).Nodup :=
    hnodup.sublist (List.filter_sublist.map _)
  unfold TodoRepository.get
  rcases hf : todos.filter fun row => row.todoId == i with _ | ⟨todo, _ | ⟨todo', rest⟩⟩
  · refine Or.inl ⟨fun hmem => ?_, by rw [hf]⟩
    obtain ⟨todo, ht, rfl⟩ := List.mem_map.1 hmem
    have hno := List.filter_eq_nil_iff.1 hf todo ht
    simp at hno
  · have hmem : todo ∈ todos.filter fun row => row.todoId == i := by rw [hf]; exact List.mem_cons_self
    obtain ⟨ht, hid⟩ := List.mem_filter.1 hmem
    exact Or.inr ⟨todo, ht, beq_iff_eq.1 hid, by rw [hf]⟩
  · -- two rows with the id
    exfalso
    have hid : ∀ row ∈ todo :: todo' :: rest, row.todoId = i := by
      intro row hrow
      rw [← hf] at hrow
      exact beq_iff_eq.1 (List.mem_filter.1 hrow).2
    rw [hf, List.map_cons, List.map_cons, List.nodup_cons] at hlen
    refine hlen.1 ?_
    rw [hid todo (by simp), hid todo' (by simp)]
    exact List.mem_cons_self

/-! ### Every run -/

/-- The event of a write to the todo table that has not been stored. -/
def Phase.unstored : Phase → Option TodoEvent
  | storing event | lost event _ => some event
  | adding _ _ | getting _ _ | retitling _ _ | publishing _ | done _ => none

/-- Before its first write a call has the event of its command, and the todo to be written agrees with it. -/
def Phase.Fits (todos : List Todo) : Phase → Prop
  | adding todo event => ∃ base title content, event = .created base title content ∧
      todo = { todoId := base.entityId, title := title, content := content }
  | getting todoId event => ∃ base title, event = .retitled base title ∧ todoId = base.entityId
  | retitling todo event => ∃ base title, event = .retitled base title ∧ todo.todoId = base.entityId ∧
      todo.title = title ∧ base.entityId ∈ todos.map Todo.todoId
  | storing _ | publishing _ | done _ | lost _ _ => True

/-- What holds in every run. -/
structure Sound (s : TodoApp) : Prop where
  table : Written s.written s.todos
  calls : ∀ p ∈ s.calls, p.Fits s.todos
  stored : s.written.Perm (s.events.map Prod.snd ++ s.calls.filterMap Phase.unstored)
  eventIds : (s.events.map fun p => p.2.eventId).Nodup

section

variable {s s' : TodoApp} {a : TodoAct} {acts : List TodoAct}

theorem Phase.Fits.mono {todos todos' : List Todo} {p : Phase} (h : p.Fits todos)
    (hsub : todos.map Todo.todoId ⊆ todos'.map Todo.todoId) : p.Fits todos' := by
  cases p with
  | retitling todo event =>
    obtain ⟨base, title, he, hid, ht, hmem⟩ := h
    exact ⟨base, title, he, hid, ht, hsub hmem⟩
  | _ => exact h

/-- One call goes on: the calls besides it stay. -/
theorem filterMap_enter {f : Phase → Option TodoEvent} {c : Nat} {p : Phase} (hc : s.calls[c]? = some p) :
    ∃ rest, (s.calls.filterMap f).Perm ((f p).toList ++ rest) ∧
      ∀ q, ((s.enter c q).calls.filterMap f).Perm ((f q).toList ++ rest) := by
  obtain ⟨hlt, rfl⟩ := List.getElem?_eq_some_iff.1 hc
  have hcons : ∀ q (l : List Phase), ((q :: l).filterMap f) = (f q).toList ++ l.filterMap f := by
    intro q l
    cases hq : f q with
    | none => rw [List.filterMap_cons_none hq, Option.toList_none, List.nil_append]
    | some e => rw [List.filterMap_cons_some hq, Option.toList_some, List.singleton_append]
  refine ⟨(s.calls.eraseIdx c).filterMap f, ?_, fun q => ?_⟩
  · rw [← hcons]
    exact (List.getElem_cons_eraseIdx_perm hlt).symm.filterMap f
  · rw [← hcons]
    exact (List.set_perm_cons_eraseIdx hlt q).filterMap f

theorem mem_enter {c : Nat} {p q : Phase} (h : p ∈ (s.enter c q).calls) : p ∈ s.calls ∨ p = q :=
  List.mem_or_eq_of_mem_set h

/-- A call that has neither written nor is between its writes ends or goes on. -/
private theorem Sound.enter (hs : Sound s) {c : Nat} {p q : Phase} (hc : s.calls[c]? = some p)
    (hpq : p.unstored = q.unstored) (hq : q.Fits s.todos) : Sound (s.enter c q) := by
  obtain ⟨rest, hold, hnew⟩ := filterMap_enter (f := Phase.unstored) hc
  refine ⟨hs.table, fun p' hp' => ?_, hs.stored.trans (List.Perm.append_left _ ?_), hs.eventIds⟩
  · rcases mem_enter hp' with hp' | rfl
    · exact hs.calls p' hp'
    · exact hq
  · rw [hpq] at hold
    exact hold.trans (hnew q).symm

/-- A call makes its write to the todo table. -/
private theorem Sound.write (hs : Sound s) {c : Nat} {p : Phase} {event : TodoEvent} {todos : List Todo}
    (hc : s.calls[c]? = some p) (hp : p.unstored = none) (hw : Written (s.written ++ [event]) todos)
    (hsub : s.todos.map Todo.todoId ⊆ todos.map Todo.todoId) :
    Sound { s.enter c (.storing event) with todos := todos, written := s.written ++ [event] } := by
  obtain ⟨rest, hold, hnew⟩ := filterMap_enter (f := Phase.unstored) hc
  rw [hp, Option.toList_none, List.nil_append] at hold
  refine ⟨hw, fun p' hp' => ?_, ?_, hs.eventIds⟩
  · rcases mem_enter hp' with hp' | rfl
    · exact (hs.calls p' hp').mono hsub
    · trivial
  · have hstored := (hs.stored.trans (List.Perm.append_left _ hold)).append_right [event]
    refine hstored.trans ?_
    rw [List.append_assoc]
    exact List.Perm.append_left _ (List.perm_append_comm.trans (hnew (.storing event)).symm)

theorem sound_step (hs : Sound s) (h : s.step a = some s') : Sound s' := by
  cases TodoApp.steps_of_step h with
  | addNewTodo command eventId timestamp =>
    refine ⟨hs.table, fun p hp => ?_, ?_, hs.eventIds⟩
    · rcases List.mem_append.1 hp with hp | hp
      · exact hs.calls p hp
      · rw [List.mem_singleton.1 hp]
        exact ⟨_, _, _, rfl, rfl⟩
    · rw [List.filterMap_append]
      exact (List.append_nil (s.calls.filterMap Phase.unstored)).symm ▸ hs.stored
  | renameTodo command eventId timestamp =>
    refine ⟨hs.table, fun p hp => ?_, ?_, hs.eventIds⟩
    · rcases List.mem_append.1 hp with hp | hp
      · exact hs.calls p hp
      · rw [List.mem_singleton.1 hp]
        exact ⟨_, _, rfl, rfl⟩
    · rw [List.filterMap_append]
      exact (List.append_nil (s.calls.filterMap Phase.unstored)).symm ▸ hs.stored
  | @add c g todo event hc hnew =>
    obtain ⟨base, title, content, rfl, rfl⟩ := hs.calls _ (List.mem_of_getElem? hc)
    refine hs.write hc rfl (hs.table.create base title content hnew) ?_
    rw [List.map_append]
    exact List.subset_append_left _ _
  | @get c g todoId event todo applied hc hget happ =>
    obtain ⟨base, title, rfl, rfl⟩ := hs.calls _ (List.mem_of_getElem? hc)
    cases happ
    refine hs.enter hc rfl ⟨base, title, rfl, ?_⟩
    rcases get_eq hs.table.rows.1 base.entityId with ⟨-, hnone⟩ | ⟨row, hrow, hid, hsome⟩
    · rw [hnone] at hget
      cases hget
    · rw [hsome] at hget
      cases hget
      exact ⟨hid, rfl, hid ▸ List.mem_map_of_mem hrow⟩
  | @retitle c g todo event hc =>
    obtain ⟨base, title, rfl, hid, rfl, hmem⟩ := hs.calls _ (List.mem_of_getElem? hc)
    rw [hid]
    refine hs.write hc rfl (hs.table.retitle base todo.title hmem) ?_
    rw [map_todoId_retitle]
    exact List.Subset.refl _
  | @store c g event hc hnew =>
    obtain ⟨rest, hold, hafter⟩ := filterMap_enter (f := Phase.unstored) hc
    refine ⟨hs.table, fun p hp => ?_, ?_, ?_⟩
    · rcases mem_enter hp with hp | rfl
      · exact hs.calls p hp
      · trivial
    · have hperm := hs.stored.trans (List.Perm.append_left _ hold)
      rw [List.map_append, List.append_assoc]
      have hafter' := (hafter (.publishing event)).symm
      exact hperm.trans (List.Perm.append_left _ (List.Perm.append_left [event] hafter'))
    · rw [List.map_append, List.nodup_append]
      refine ⟨hs.eventIds, List.nodup_singleton _, fun i hi j hj => ?_⟩
      rw [List.mem_singleton.1 hj]
      rintro rfl
      exact hnew hi
  | lose hc _ => exact hs.enter hc rfl trivial
  | @finish c a p r hc hp hl _ =>
    refine hs.enter hc ?_ trivial
    cases p with
    | storing event => exact absurd rfl (hp event)
    | lost event e => exact absurd rfl (hl event e)
    | _ => rfl

theorem sound_run (hrun : Run.run TodoApp.step .new acts = some s) : Sound s := by
  have hnew : Sound .new := ⟨.nil, fun p hp => (by cases hp), List.Perm.refl _, List.nodup_nil⟩
  exact Run.preserved (fun _ _ _ hi h => sound_step hi h) hnew hrun

/-- In every run of concurrent calls: `get` finds no todo that was never written, and otherwise the one row that
`Todo.rebuild` makes of the writes of the todo; and the event store has the event of each write once, except those of
calls that are between their writes or have raised there. -/
theorem todos_match_writes (hrun : Run.run TodoApp.step .new acts = some s) (todoId : String) :
    ((ofTodo todoId s.written = [] ∧ TodoRepository.get s.todos todoId = .ok none) ∨
        ∃ todo, TodoRepository.get s.todos todoId = .ok (some todo) ∧
          Todo.rebuild (ofTodo todoId s.written) = .ok (some todo)) ∧
      s.written.Perm (s.events.map Prod.snd ++ s.calls.filterMap Phase.unstored) := by
  have hs := sound_run hrun
  obtain ⟨hnodup, habsent, hrow⟩ := hs.table.rows
  refine ⟨?_, hs.stored⟩
  rcases get_eq hnodup todoId with ⟨hno, hget⟩ | ⟨todo, ht, rfl, hget⟩
  · exact Or.inl ⟨habsent todoId hno, hget⟩
  · exact Or.inr ⟨todo, hget, hrow todo ht⟩

/-! ### Calls that do not disturb each other -/

/-- The event of the todo that the call stores next. -/
def Phase.pending (todoId : String) : Phase → Option TodoEvent
  | storing event => if event.entityId = todoId then some event else none
  | adding _ _ | getting _ _ | retitling _ _ | publishing _ | done _ | lost _ _ => none

/-- No call writes the row of the todo while another is between its two writes for it, and none raises there. -/
def Undisturbed (todoId : String) (s : TodoApp) (a : TodoAct) : Prop :=
  (∀ c g todo event, a = .go c g →
      (s.calls[c]? = some (.adding todo event) ∨ s.calls[c]? = some (.retitling todo event)) →
        event.entityId = todoId → ∀ e, .storing e ∈ s.calls → e.entityId ≠ todoId) ∧
    ∀ c event, s.calls[c]? = some (.storing event) → event.entityId = todoId →
      (∀ n, a ≠ .fail c n) ∧ ∀ g, a = .go c g → event.eventId ∉ s.events.map fun p => p.2.eventId

/-- The stored events of the todo, and the one that is to be stored next, are those of its writes, in order. -/
structure InStep (todoId : String) (s : TodoApp) : Prop where
  order : ofTodo todoId s.written =
    ofTodo todoId (s.events.map Prod.snd) ++ s.calls.filterMap (Phase.pending todoId)
  single : (s.calls.filterMap (Phase.pending todoId)).length ≤ 1

variable {i : String}

private theorem eq_of_perm_short {l l' : List TodoEvent} (h : l.Perm l') (hl : l.length ≤ 1) : l' = l := by
  rcases l with _ | ⟨e, _ | ⟨e', l⟩⟩
  · exact List.nil_perm.1 h
  · exact (List.singleton_perm.1 h).symm
  · simp at hl

/-- A call goes on without an event to be stored for this todo, before or after. -/
private theorem InStep.enter (hs : InStep i s) {c : Nat} {p q : Phase} (hc : s.calls[c]? = some p)
    (hp : p.pending i = none) (hq : q.pending i = none) : InStep i (s.enter c q) := by
  obtain ⟨rest, hold, hnew⟩ := filterMap_enter (f := Phase.pending i) hc
  have hsame : (s.enter c q).calls.filterMap (Phase.pending i) = s.calls.filterMap (Phase.pending i) := by
    have hafter := hnew q
    rw [hq] at hafter
    rw [hp] at hold
    exact eq_of_perm_short (hold.trans hafter.symm) hs.single
  exact ⟨hsame ▸ hs.order, hsame ▸ hs.single⟩

private theorem InStep.write (hs : InStep i s) {c : Nat} {p : Phase} {event : TodoEvent} (todos : List Todo)
    (hc : s.calls[c]? = some p) (hp : p.pending i = none)
    (hfree : event.entityId = i → ∀ e, .storing e ∈ s.calls → e.entityId ≠ i) :
    InStep i { s.enter c (.storing event) with todos := todos, written := s.written ++ [event] } := by
  by_cases hid : event.entityId = i
  · -- it is the only one
    have hnone : s.calls.filterMap (Phase.pending i) = [] := by
      refine List.filterMap_eq_nil_iff.2 fun q hq => ?_
      cases q with
      | storing e => exact if_neg (hfree hid e hq)
      | _ => rfl
    obtain ⟨rest, hold, hnew⟩ := filterMap_enter (f := Phase.pending i) hc
    rw [hp, hnone, Option.toList_none, List.nil_append, List.nil_perm] at hold
    have hone : (s.enter c (.storing event)).calls.filterMap (Phase.pending i) = [event] := by
      have hafter := hnew (.storing event)
      rw [hold, List.append_nil, Phase.pending, if_pos hid] at hafter
      exact List.perm_singleton.1 hafter
    have horder := hs.order
    rw [hnone, List.append_nil] at horder
    refine ⟨?_, ?_⟩
    · show ofTodo i (s.written ++ [event]) = _ ++ (s.enter c (.storing event)).calls.filterMap (Phase.pending i)
      rw [hone, ofTodo_snoc, if_pos hid, horder]
      rfl
    · show ((s.enter c (.storing event)).calls.filterMap (Phase.pending i)).length ≤ 1
      rw [hone]
      exact le_rfl
  · have henter := hs.enter hc hp (q := .storing event) (if_neg hid)
    refine ⟨?_, henter.single⟩
    show ofTodo i (s.written ++ [event]) = _
    rw [ofTodo_snoc, if_neg hid, List.append_nil]
    exact henter.order

private theorem InStep.store (hs : InStep i s) {c : Nat} {event : TodoEvent} (g : Generated)
    (hc : s.calls[c]? = some (.storing event)) :
    InStep i { s.enter c (.publishing event) with events := s.events ++ [(g, event)] } := by
  have hsnoc : ofTodo i ((s.events ++ [(g, event)]).map Prod.snd) =
      ofTodo i (s.events.map Prod.snd) ++ if event.entityId = i then [event] else [] := by
    rw [List.map_append]
    exact ofTodo_snoc i _ event
  by_cases hid : event.entityId = i
  · obtain ⟨rest, hold, hnew⟩ := filterMap_enter (f := Phase.pending i) hc
    rw [Phase.pending, if_pos hid, Option.toList_some, List.singleton_append] at hold
    -- it was the only one
    have hrest : rest = [] := by
      have hlen := hold.length_eq ▸ hs.single
      rw [List.length_cons] at hlen
      exact List.length_eq_zero_iff.1 (by omega)
    rw [hrest] at hold
    have hone : s.calls.filterMap (Phase.pending i) = [event] := List.perm_singleton.1 hold
    have hnone : (s.enter c (.publishing event)).calls.filterMap (Phase.pending i) = [] := by
      have hafter := hnew (.publishing event)
      rw [hrest] at hafter
      exact List.perm_nil.1 hafter
    have horder := hs.order
    rw [hone] at horder
    refine ⟨?_, ?_⟩
    · show ofTodo i s.written = ofTodo i ((s.events ++ [(g, event)]).map Prod.snd) ++
        (s.enter c (.publishing event)).calls.filterMap (Phase.pending i)
      rw [hnone, hsnoc, if_pos hid, List.append_nil, horder]
    · show ((s.enter c (.publishing event)).calls.filterMap (Phase.pending i)).length ≤ 1
      rw [hnone]
      exact Nat.zero_le _
  · have henter := hs.enter hc (if_neg hid) (q := .publishing event) rfl
    refine ⟨?_, henter.single⟩
    show ofTodo i s.written = ofTodo i ((s.events ++ [(g, event)]).map Prod.snd) ++ _
    rw [hsnoc, if_neg hid, List.append_nil]
    exact henter.order

theorem inStep_step (hs : InStep i s) (hu : Undisturbed i s a) (h : s.step a = some s') : InStep i s' := by
  cases TodoApp.steps_of_step h with
  | addNewTodo command eventId timestamp =>
    have hsame : (s.calls ++ [Demo.addNewTodo command eventId timestamp]).filterMap (Phase.pending i) =
        s.calls.filterMap (Phase.pending i) := by
      rw [List.filterMap_append]
      exact List.append_nil _
    exact ⟨hs.order.trans (congrArg _ hsame.symm), hsame ▸ hs.single⟩
  | renameTodo command eventId timestamp =>
    have hsame : (s.calls ++ [Demo.renameTodo command eventId timestamp]).filterMap (Phase.pending i) =
        s.calls.filterMap (Phase.pending i) := by
      rw [List.filterMap_append]
      exact List.append_nil _
    exact ⟨hs.order.trans (congrArg _ hsame.symm), hsame ▸ hs.single⟩
  | @add c g todo event hc _ =>
    exact hs.write _ hc rfl fun hid => hu.1 c g todo event rfl (Or.inl hc) hid
  | get hc _ _ => exact hs.enter hc rfl rfl
  | @retitle c g todo event hc => exact hs.write _ hc rfl fun hid => hu.1 c g todo event rfl (Or.inr hc) hid
  | @store c g event hc _ => exact hs.store g hc
  | @lose c a event e hc ha =>
    -- not of this todo
    have hid : event.entityId ≠ i := by
      intro hid
      obtain ⟨hfail, hgo⟩ := hu.2 c event hc hid
      rcases ha with ⟨n, rfl⟩ | ⟨g, rfl, hmem⟩
      · exact hfail n rfl
      · exact hgo g rfl hmem
    exact hs.enter hc (if_neg hid) rfl
  | @finish c a p r hc hp hl _ =>
    refine hs.enter hc ?_ rfl
    cases p with
    | storing event => exact absurd rfl (hp event)
    | _ => rfl

/-- While calls do not disturb each other on a todo, its stored events are those of its writes, in order. -/
theorem inStep_run (hrun : Run.run TodoApp.step .new acts = some s)
    (hu : Run.Meets TodoApp.step (Undisturbed i) .new acts) : InStep i s := by
  have hnew : InStep i .new := ⟨rfl, Nat.zero_le _⟩
  exact Run.invariant (fun _ _ _ hi ha h => inStep_step hi ha h) hnew hu hrun

end

/-! ### Which steps disturb -/

/-- A call in this phase does not disturb the todo when it goes on. -/
def Phase.Calm (todoId : String) (s : TodoApp) : Phase → Prop
  | adding _ event | retitling _ event => event.entityId = todoId → ∀ p ∈ s.calls, p.pending todoId = none
  | storing event => event.entityId = todoId → event.eventId ∉ s.events.map fun p => p.2.eventId
  | getting _ _ | publishing _ | done _ | lost _ _ => True

instance (todoId : String) (s : TodoApp) : DecidablePred (Phase.Calm todoId s)
  | .adding _ event | .retitling _ event =>
    inferInstanceAs (Decidable (event.entityId = todoId → ∀ p ∈ s.calls, p.pending todoId = none))
  | .storing event =>
    inferInstanceAs (Decidable (event.entityId = todoId → event.eventId ∉ s.events.map fun p => p.2.eventId))
  | .getting _ _ | .publishing _ | .done _ | .lost _ _ => .isTrue trivial

theorem Phase.pending_eq_none {i : String} {p : Phase} :
    p.pending i = none ↔ ∀ event, p = .storing event → event.entityId ≠ i := by
  cases p with
  | storing event => simp [pending]
  | _ => simp [pending]

section

variable {i : String} {s : TodoApp} {c : Nat}

theorem undisturbed_go_iff {g : Generated} : Undisturbed i s (.go c g) ↔ ∀ p ∈ s.calls[c]?, p.Calm i s := by
  have hidle : (∀ p ∈ s.calls, p.pending i = none) ↔ ∀ e, .storing e ∈ s.calls → e.entityId ≠ i := by
    simp only [Phase.pending_eq_none]
    exact ⟨fun h e he => h _ he e rfl, fun h p hp e heq => h e (heq ▸ hp)⟩
  constructor
  · rintro ⟨hwrite, hstore⟩ p hp
    cases p with
    | adding todo event => exact fun hid => hidle.2 (hwrite c g todo event rfl (Or.inl hp) hid)
    | retitling todo event => exact fun hid => hidle.2 (hwrite c g todo event rfl (Or.inr hp) hid)
    | storing event => exact fun hid => (hstore c event hp hid).2 g rfl
    | _ => trivial
  · intro h
    refine ⟨?_, fun c' event hc' hid => ⟨fun n ha => (by cases ha), ?_⟩⟩
    · rintro c' g' todo event ⟨⟩ (hc | hc) hid
      · exact hidle.1 (h _ hc hid)
      · exact hidle.1 (h _ hc hid)
    · rintro g' ⟨⟩
      exact h _ hc' hid

theorem undisturbed_fail_iff {n : Nat} : Undisturbed i s (.fail c n) ↔ ∀ p ∈ s.calls[c]?, p.pending i = none := by
  simp only [Phase.pending_eq_none]
  constructor
  · rintro ⟨-, hstore⟩ p hp event rfl hid
    exact (hstore c event hp hid).1 n rfl
  · intro h
    refine ⟨fun c' g todo event ha => (by cases ha), fun c' event hc' hid => ⟨?_, fun g ha => (by cases ha)⟩⟩
    rintro n' ⟨⟩
    exact h _ hc' event rfl hid

/-- A call that begins disturbs nothing. -/
theorem undisturbed_of_begins {a : TodoAct} (hgo : ∀ c g, a ≠ .go c g) (hfail : ∀ c n, a ≠ .fail c n) :
    Undisturbed i s a :=
  ⟨fun c g _ _ ha => absurd ha (hgo c g), fun c _ _ _ => ⟨hfail c, fun g ha => absurd ha (hgo c g)⟩⟩

end

instance (todoId : String) (s : TodoApp) (a : TodoAct) : Decidable (Undisturbed todoId s a) :=
  match a with
  | .addNewTodo _ _ _ => .isTrue (undisturbed_of_begins (fun _ _ h => (by cases h)) fun _ _ h => (by cases h))
  | .renameTodo _ _ _ => .isTrue (undisturbed_of_begins (fun _ _ h => (by cases h)) fun _ _ h => (by cases h))
  | .go _ _ => decidable_of_iff' _ undisturbed_go_iff
  | .fail _ _ => decidable_of_iff' _ undisturbed_fail_iff

/-! ### Two renames that cross -/

namespace TodoRuns

def g : Generated := ⟨0, 0, 0⟩

/-- The todo `a` is created; then two calls rename it, and the second stores its event first. -/
def crossed : List TodoAct :=
  [.addNewTodo ⟨"a", "tea", "green"⟩ "1" "t", .go 0 g, .go 0 g, .renameTodo ⟨"a", "coffee"⟩ "2" "t",
    .renameTodo ⟨"a", "milk"⟩ "3" "t", .go 1 g, .go 1 g, .go 2 g, .go 2 g, .go 2 g, .go 1 g]

def teaCreated : TodoEvent := .created ⟨"a", "1", "t"⟩ "tea" "green"

def coffee : TodoEvent := .retitled ⟨"a", "2", "t"⟩ "coffee"

def milk : TodoEvent := .retitled ⟨"a", "3", "t"⟩ "milk"

def afterCrossed : TodoApp where
  todos := [⟨"a", "milk", "green", false⟩]
  events := [(g, teaCreated), (g, milk), (g, coffee)]
  calls := [.publishing teaCreated, .publishing coffee, .publishing milk]
  written := [teaCreated, coffee, milk]

theorem run_crossed : Run.run TodoApp.step .new crossed = some afterCrossed := by
  rfl

/-- The row is that of the writes, but the stored events come to another title. -/
theorem crossed_matches_writes :
    (∃ todo, TodoRepository.get afterCrossed.todos "a" = .ok (some todo) ∧
        Todo.rebuild (ofTodo "a" afterCrossed.written) = .ok (some todo)) ∧
      Todo.rebuild (ofTodo "a" (afterCrossed.events.map Prod.snd)) = .ok (some ⟨"a", "coffee", "green", false⟩) := by
  refine ⟨?_, rfl⟩
  rcases (todos_match_writes run_crossed "a").1 with ⟨hnone, -⟩ | htodo
  · cases hnone
  · exact htodo

end TodoRuns

end Anywise.Demo
