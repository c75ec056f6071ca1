import Anywise.Demo.Reading

/-!
# `list_todos`

`list_todos` rebuilds a todo from each run of events of one entity, and the event table has the runs in the order in
which calls stored their events.  A run that begins with a `TodoRetitled` cannot be rebuilt.  So the todos are listed,
each once and with its whole history, exactly when each `TodoRetitled` stands right behind an event of its todo
(`list_todos_iff`), and once they are not listed they never are again (`list_todos_stays_broken`).
-/

namespace Anywise.Demo

open Messages

/-! ### Streams that can be rebuilt -/

/-- A history can be rebuilt when it begins with a `TodoCreated`. -/
theorem rebuild_history {events : List TodoEvent} (hne : events ≠ []) :
    ((∀ e ∈ events.head?, e.isCreated = true) → ∃ todo, Todo.rebuild events = .ok (some todo)) ∧
      (¬ (∀ e ∈ events.head?, e.isCreated = true) → Todo.rebuild events = .error Todo.typeError) := by
  obtain ⟨e, rest, rfl⟩ := List.exists_cons_of_ne_nil hne
  cases e with
  | created base title content =>
    refine ⟨fun _ => ⟨_, rebuild_created base title content rest⟩, fun h => absurd (fun e he => ?_) h⟩
    cases he
    rfl
  | retitled base title => exact ⟨fun h => (by cases h _ rfl), fun _ => rebuild_retitled base title rest⟩

theorem rebuildStreams_eq_ok {streams : List (List TodoEvent)} {todos : List (Option Todo)} :
    rebuildStreams streams = .ok todos ↔ streams.map Todo.rebuild = todos.map .ok := by
  induction streams generalizing todos with
  | nil => cases todos <;> simp [rebuildStreams]
  | cons stream streams ih =>
    rw [rebuildStreams, List.map_cons]
    cases hr : Todo.rebuild stream with
    | error e =>
      refine iff_of_false (fun h => (by cases h)) fun h => ?_
      cases todos with
      | nil => cases h
      | cons todo todos => cases (List.cons.inj h).1
    | ok todo =>
      cases todos with
      | nil =>
        refine iff_of_false (fun h => ?_) fun h => (by cases h)
        cases hs : rebuildStreams streams with
        | error e =>
          rw [hs] at h
          cases h
        | ok todos' =>
          rw [hs] at h
          cases h
      | cons todo' todos =>
        rw [List.map_cons, List.cons.injEq, ← ih, Except.ok.injEq]
        cases hs : rebuildStreams streams with
        | error e => simp
        | ok todos' => simp

/-- Streams without an empty one are rebuilt exactly when each begins with a `TodoCreated`. -/
theorem rebuildStreams_cases {streams : List (List TodoEvent)} (hne : ∀ g ∈ streams, g ≠ []) :
    ((∀ g ∈ streams, ∀ e ∈ g.head?, e.isCreated = true) → ∃ todos, rebuildStreams streams = .ok todos) ∧
      (¬ (∀ g ∈ streams, ∀ e ∈ g.head?, e.isCreated = true) → rebuildStreams streams = .error Todo.typeError) := by
  induction streams with
  | nil => exact ⟨fun _ => ⟨[], rfl⟩, fun h => absurd (fun g hg => (by cases hg)) h⟩
  | cons stream streams ih =>
    obtain ⟨hok, hbad⟩ := rebuild_history (hne stream List.mem_cons_self)
    obtain ⟨ihok, ihbad⟩ := ih fun g hg => hne g (List.mem_cons_of_mem stream hg)
    rw [List.forall_mem_cons, rebuildStreams]
    by_cases hhead : ∀ e ∈ stream.head?, e.isCreated = true
    · obtain ⟨todo, htodo⟩ := hok hhead
      rw [htodo]
      constructor
      · rintro ⟨-, hrest⟩
        obtain ⟨todos, htodos⟩ := ihok hrest
        exact ⟨some todo :: todos, by rw [htodos]⟩
      · intro h
        rw [ihbad fun hrest => h ⟨hhead, hrest⟩]
    · rw [hbad hhead]
      exact ⟨fun h => absurd h.1 hhead, fun _ => rfl⟩

/-! ### Events behind each other -/

/-- Each `TodoRetitled` stands right behind an event of its todo. -/
def Behind (events : List TodoEvent) : Prop :=
  ∀ pre base title post, events = pre ++ .retitled base title :: post →
    ∃ e ∈ pre.getLast?, e.entityId = base.entityId

theorem behind_iff (events : List TodoEvent) :
    Behind events ↔ Grouping.Heads TodoEvent.entityId (fun e => e.isCreated = true) events := by
  constructor
  · intro h pre a post hl hlast
    cases a with
    | created base title content => rfl
    | retitled base title =>
      obtain ⟨e, he, hid⟩ := h pre base title post hl
      exact absurd hid (hlast e he)
  · intro h pre base title post hl
    by_contra hno
    have hcreated := h pre (.retitled base title) post hl fun e he hid => hno ⟨e, he, hid⟩
    cases hcreated

/-- The event begins a stream that can be rebuilt, or one that is not yielded. -/
def TodoEvent.Begins (e : TodoEvent) : Prop := e.entityId ≠ "" → e.isCreated = true

/-- The streams that are yielded begin with a `TodoCreated`. -/
theorem begins_iff (events : List TodoEvent) :
    (∀ g ∈ (Grouping.runs TodoEvent.entityId events).filter (named TodoEvent.entityId),
        ∀ e ∈ g.head?, e.isCreated = true) ↔ Grouping.Heads TodoEvent.entityId TodoEvent.Begins events := by
  rw [← Grouping.heads_runs_iff]
  have hcut := Grouping.runs_cutAt TodoEvent.entityId events
  constructor
  · intro h g hg e he hid
    refine h g (List.mem_filter.2 ⟨hg, List.all_eq_true.2 fun x hx => bne_iff_ne.2 ?_⟩) e he
    obtain ⟨i, hi⟩ := hcut.single g hg
    rwa [hi x hx, ← hi e (List.mem_of_mem_head? he)]
  · intro h g hg e he
    obtain ⟨hg, hnamed⟩ := List.mem_filter.1 hg
    exact h g hg e he (bne_iff_ne.1 (List.all_eq_true.1 hnamed e (List.mem_of_mem_head? he)))

/-- A todo is created once. -/
theorem Written.created_once {log : List TodoEvent} {todos : List Todo} (h : Written log todos) :
    ((log.filter TodoEvent.isCreated).map TodoEvent.entityId).Nodup := by
  induction h with
  | nil => exact List.nodup_nil
  | @create log todos hw base title content hnew ih =>
    rw [List.filter_append, List.map_append]
    refine List.nodup_append.2 ⟨ih, List.nodup_singleton _, fun i hi j hj => ?_⟩
    rw [List.mem_singleton.1 hj]
    rintro rfl
    obtain ⟨e, he, hid⟩ := List.mem_map.1 hi
    -- an earlier event of this todo
    have habsent := hw.rows.2.1 base.entityId hnew
    refine List.filter_eq_nil_iff.1 habsent e (List.mem_of_mem_filter he) ?_
    rw [hid]
    exact beq_self_eq_true _
  | @retitle log todos _ base title _ ih =>
    rw [List.filter_append, List.map_append]
    exact (List.append_nil ((log.filter TodoEvent.isCreated).map TodoEvent.entityId)).symm ▸ ih

variable {s s' : TodoApp} {acts acts' : List TodoAct}

theorem stored_created_once (hrun : Run.run TodoApp.step .new acts = some s) {l₁ l₂ l₃ : List TodoEvent}
    {e e' : TodoEvent} (hl : s.events.map Prod.snd = l₁ ++ e :: (l₂ ++ e' :: l₃)) (he : e.isCreated = true)
    (he' : e'.isCreated = true) : e.entityId ≠ e'.entityId := by
  have hs := sound_run hrun
  have hperm := (hs.stored.filter TodoEvent.isCreated).map TodoEvent.entityId
  have hnodup := hperm.nodup_iff.1 hs.table.created_once
  rw [List.filter_append, List.map_append] at hnodup
  have hleft := (List.nodup_append.1 hnodup).1
  rw [hl, List.filter_append, List.filter_cons_of_pos he, List.filter_append, List.filter_cons_of_pos he',
    List.map_append, List.map_cons, List.map_append, List.map_cons] at hleft
  have htail := (List.nodup_append.1 hleft).2.1
  rw [List.nodup_cons, List.mem_append, not_or] at htail
  intro heq
  exact htail.1.2 (heq ▸ List.mem_cons_self)

/-- The event table only grows. -/
theorem events_grow (hrun : Run.run TodoApp.step s acts = some s') :
    s.events.map Prod.snd <+: s'.events.map Prod.snd := by
  refine Run.preserved (I := fun t => s.events.map Prod.snd <+: t.events.map Prod.snd) (fun t a t' ht h => ?_)
    (List.prefix_refl _) hrun
  cases TodoApp.steps_of_step h with
  | store _ _ =>
    refine ht.trans ?_
    rw [List.map_append]
    exact List.prefix_append _ _
  | _ => exact ht

section

variable (ord : SetOrder) (registry : {r : Dict String Cls // Filed eventTypes r}) (default : String → Option Json)

theorem allEventStreams_todoStructs :
    allEventStreams (todoStructs ord registry default) (s.rows (todoStructs ord registry default)) =
      ((Grouping.runs TodoEvent.entityId (s.events.map Prod.snd)).filter (named TodoEvent.entityId), none) := by
  rw [allEventStreams, TodoApp.rows, listAllEvents_eq (decodes_todoStructs ord registry default s.events)]
  exact streamLoop_runs _ _

theorem listTodos_cases :
    (Grouping.Heads TodoEvent.entityId TodoEvent.Begins (s.events.map Prod.snd) →
        ∃ todos, listTodos (todoStructs ord registry default) (s.rows (todoStructs ord registry default)) = .ok todos ∧
          ((Grouping.runs TodoEvent.entityId (s.events.map Prod.snd)).filter (named TodoEvent.entityId)).map
            Todo.rebuild = todos.map .ok) ∧
      (¬ Grouping.Heads TodoEvent.entityId TodoEvent.Begins (s.events.map Prod.snd) →
        listTodos (todoStructs ord registry default) (s.rows (todoStructs ord registry default)) =
          .error (.entity Todo.typeError)) := by
  have hne : ∀ g ∈ (Grouping.runs TodoEvent.entityId (s.events.map Prod.snd)).filter (named TodoEvent.entityId),
      g ≠ [] := fun g hg => (Grouping.runs_cutAt _ _).nonempty g (List.mem_of_mem_filter hg)
  obtain ⟨hok, hbad⟩ := rebuildStreams_cases hne
  rw [begins_iff] at hok hbad
  rw [listTodos, allEventStreams_todoStructs ord registry default]
  constructor
  · intro h
    obtain ⟨todos, htodos⟩ := hok h
    exact ⟨todos, by simp only [htodos], rebuildStreams_eq_ok.1 htodos⟩
  · intro h
    simp only [hbad h]

/-- In every run, as long as no todo has the empty id: when each `TodoRetitled` stands right behind an event of its
todo, `list_todos` lists each todo of the event table once, rebuilt from all its events; otherwise it raises. -/
theorem list_todos_iff (hrun : Run.run TodoApp.step .new acts = some s) (hids : ∀ p ∈ s.events, p.2.entityId ≠ "") :
    (Behind (s.events.map Prod.snd) →
        ∃ (todos : List (Option Todo)) (ids : List String),
          listTodos (todoStructs ord registry default) (s.rows (todoStructs ord registry default)) = .ok todos ∧
            ids.Nodup ∧ (∀ i, i ∈ ids ↔ ∃ e ∈ s.events.map Prod.snd, e.entityId = i) ∧
              todos.map .ok = ids.map fun i => Todo.rebuild (ofTodo i (s.events.map Prod.snd))) ∧
      (¬ Behind (s.events.map Prod.snd) →
        listTodos (todoStructs ord registry default) (s.rows (todoStructs ord registry default)) =
          .error (.entity Todo.typeError)) := by
  obtain ⟨hok, hbad⟩ := listTodos_cases (s := s) ord registry default
  have hevents : ∀ e ∈ s.events.map Prod.snd, e.entityId ≠ "" := List.forall_mem_map.2 hids
  have hbehind : Behind (s.events.map Prod.snd) ↔
      Grouping.Heads TodoEvent.entityId TodoEvent.Begins (s.events.map Prod.snd) := by
    rw [behind_iff]
    constructor
    · intro h pre a post hl hlast _
      exact h pre a post hl hlast
    · intro h pre a post hl hlast
      exact h pre a post hl hlast (hevents a (by rw [hl]; simp))
  refine ⟨fun h => ?_, fun h => hbad (mt hbehind.2 h)⟩
  obtain ⟨todos, htodos, hruns⟩ := hok (hbehind.1 h)
  -- a todo is created once, so its events stand together
  have hcontiguous : Grouping.Contiguous TodoEvent.entityId (s.events.map Prod.snd) :=
    ((behind_iff _).1 h).contiguous fun l₁ e l₂ e' l₃ hl he he' => stored_created_once hrun hl he he'
  obtain ⟨ids, hnodup, hmem, hgroups⟩ := (Grouping.runs_areGroups_iff _).2 hcontiguous
  refine ⟨todos, ids, htodos, hnodup, hmem, ?_⟩
  rw [← hruns, hgroups, List.filter_eq_self.2 fun g hg => ?_, List.map_map]
  · rfl
  · obtain ⟨i, -, rfl⟩ := List.mem_map.1 hg
    exact List.all_eq_true.2 fun e he => bne_iff_ne.2 (hevents e (List.mem_of_mem_filter he))

/-- Once `list_todos` has failed to rebuild a todo it fails in every later state, whatever is called: the stream that
it cannot rebuild may only grow. -/
theorem list_todos_stays_broken
    (hbroken : listTodos (todoStructs ord registry default) (s.rows (todoStructs ord registry default)) =
      .error (.entity Todo.typeError)) (hrun : Run.run TodoApp.step s acts = some s') :
    listTodos (todoStructs ord registry default) (s'.rows (todoStructs ord registry default)) =
      .error (.entity Todo.typeError) := by
  refine (listTodos_cases ord registry default).2 fun h => ?_
  obtain ⟨todos, htodos, -⟩ := (listTodos_cases ord registry default).1 (h.of_prefix (events_grow hrun))
  rw [htodos] at hbroken
  cases hbroken

end

/-! ### Two todos -/

namespace TodoRuns

theorem two_listed : ∃ todos, listTodos (todoStructs .listed emptyRegistry fun _ => none)
    (afterTwo.rows (todoStructs .listed emptyRegistry fun _ => none)) = .ok todos := by
  have hids : ∀ p ∈ afterTwo.events, p.2.entityId ≠ "" := by
    simp [afterTwo, teaCreated, coffee, milkCreated, TodoEvent.entityId, TodoEvent.base]
  have hbehind : Behind (afterTwo.events.map Prod.snd) := by
    intro pre base title post hl
    rcases pre with _ | ⟨p, _ | ⟨q, _ | ⟨r, pre⟩⟩⟩
    · cases hl
    · cases hl
      exact ⟨teaCreated, rfl, rfl⟩
    · cases hl
    · simp [afterTwo] at hl
  obtain ⟨todos, -, htodos, -⟩ := (list_todos_iff .listed emptyRegistry (fun _ => none) run_two hids).1 hbehind
  exact ⟨todos, htodos⟩

/-- The todo `b` is created between `a` and the event of its new title. -/
def renamedLate : List TodoAct :=
  created ++ [.addNewTodo ⟨"b", "milk", "oat"⟩ "4" "t", .go 1 g, .go 1 g, .renameTodo ⟨"a", "coffee"⟩ "2" "t", .go 2 g,
    .go 2 g, .go 2 g]

def afterRenamed : TodoApp where
  todos := [⟨"a", "coffee", "green", false⟩, ⟨"b", "milk", "oat", false⟩]
  events := [(g, teaCreated), (g, milkCreated), (g, coffee)]
  calls := [.publishing teaCreated, .publishing milkCreated, .publishing coffee]
  written := [teaCreated, milkCreated, coffee]

theorem run_renamed : Run.run TodoApp.step .new renamedLate = some afterRenamed := by
  rfl

/-- One more todo is created, with the empty id. -/
def oneMore : List TodoAct := [.addNewTodo ⟨"", "water", "still"⟩ "5" "t", .go 3 g, .go 3 g]

/-- Nor are the todos listed after it. -/
theorem renamed_stays_broken :
    ∃ s s', Run.run TodoApp.step .new renamedLate = some s ∧ Run.run TodoApp.step s oneMore = some s' ∧
      s'.events.map Prod.snd = s.events.map Prod.snd ++ [.created ⟨"", "5", "t"⟩ "water" "still"] ∧
      listTodos (todoStructs .listed emptyRegistry fun _ => none)
        (s'.rows (todoStructs .listed emptyRegistry fun _ => none)) = .error (.entity Todo.typeError) := by
  have hbroken : ¬ Grouping.Heads TodoEvent.entityId TodoEvent.Begins (afterRenamed.events.map Prod.snd) := by
    intro h
    have hcreated := h [teaCreated, milkCreated] coffee [] rfl (by rintro e ⟨⟩; decide) (by decide)
    cases hcreated
  obtain ⟨s', hs'⟩ : ∃ s', Run.run TodoApp.step afterRenamed oneMore = some s' := ⟨_, rfl⟩
  refine ⟨afterRenamed, s', run_renamed, hs', ?_, list_todos_stays_broken .listed emptyRegistry (fun _ => none)
    ((listTodos_cases .listed emptyRegistry fun _ => none).2 hbroken) hs'⟩
  cases hs'
  rfl

end TodoRuns

end Anywise.Demo
