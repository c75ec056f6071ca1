import Anywise.Demo.Writes
import Anywise.Messages.StructTable
import Anywise.Messages.Uniqueness

/-!
# Reading the events of the demo

`Event`, from which the demo derives its events, is the struct class when `pydantic` is not installed, and then the
stored events of a todo are read back (`listEvents_todoStructs`); as `pydantic` models they are not
(`pydantic_todos_unreadable`).  While calls do not disturb each other on a todo, its row is what its events rebuild to
(`row_matches_events`).
-/

namespace Anywise.Demo

open Messages

/-! ### The event classes of the demo -/

def todoCreated : Cls := 6

def todoRetitled : Cls := 7

/-- `class TodoEvent(Event)`, `class TodoCreated(TodoEvent)` and `class TodoRetitled(TodoEvent)` -/
def eventTypes : EventTypes :=
  ((EventTypes.new.define [pydanticEvent] ⟨"demo.message", "TodoEvent", none, "unspecified", "1", [[]]⟩).define [5]
    ⟨"demo.message", "TodoCreated", none, "unspecified", "1", [[], ["title", "content"]]⟩).define [5]
      ⟨"demo.message", "TodoRetitled", none, "unspecified", "1", [[], ["title"]]⟩

/-- None of the classes says `kw_only=True`. -/
def structTypes : StructTypes :=
  ⟨eventTypes, fun cls => (eventTypes.classes cls).levels.map fun declared => ⟨false, declared⟩⟩

namespace TodoEvent

def cls : TodoEvent → Cls
  | created _ _ _ => todoCreated
  | retitled _ _ => todoRetitled

/-- `getattr(event, f)` -/
def value (e : TodoEvent) (f : String) : Json :=
  if f = "entity_id" then .str e.base.entityId
  else if f = "event_id" then .str e.base.eventId
  else if f = "timestamp" then .str e.base.timestamp
  else
    match e with
    | created _ title content => if f = "title" then .str title else .str content
    | retitled _ title => .str title

/-- The event with these field values, if its class is one of the two. -/
def ofFields? (cls : Cls) (field : String → Option Json) : Option TodoEvent :=
  match field "entity_id", field "event_id", field "timestamp", field "title" with
  | some (.str entityId), some (.str eventId), some (.str timestamp), some (.str title) =>
    if cls = todoCreated then
      match field "content" with
      | some (.str content) => some (.created ⟨entityId, eventId, timestamp⟩ title content)
      | _ => none
    else if cls = todoRetitled then some (.retitled ⟨entityId, eventId, timestamp⟩ title)
    else none
  | _, _, _, _ => none

/-- The event as an instance of a struct class, and of a `pydantic` model. -/
def toStruct (e : TodoEvent) : StructEvent structTypes := ⟨e.cls, .ofFields _ e.value⟩

def toModel (e : TodoEvent) : Event eventTypes := .ofFields eventTypes e.cls e.value

end TodoEvent

/-- An event that is read from a row; the demo stores events of no other class. -/
def readTodoEvent (event : Option TodoEvent) : Except PyErr TodoEvent :=
  match event with
  | some e => .ok e
  | none => .error .attributeError

section

-- in which order sets are iterated over, what `__EventTypeRegistry__` holds, and the default values of fields
variable (ord : SetOrder) (registry : {r : Dict String Cls // Filed eventTypes r}) (default : String → Option Json)

/-- The events of the demo without `pydantic`. -/
def todoStructs : EventModel TodoEvent where
  entityId := TodoEvent.entityId
  normalized e := e.toStruct.event.normalized
  mappingToEvent row :=
    match (structMappingToEvent structTypes ord registry.1 default row).2 with
    | .error e => .error e
    | .ok e => readTodoEvent (TodoEvent.ofFields? e.cls e.event.fields.get?)

/-- The events of the demo with `pydantic`. -/
def todoModels : EventModel TodoEvent where
  entityId := TodoEvent.entityId
  normalized e := e.toModel.normalized
  mappingToEvent row :=
    match (mappingToEvent eventTypes ord registry.1 default row).2 with
    | .error e => .error e
    | .ok e => readTodoEvent (TodoEvent.ofFields? e.cls e.fields.get?)

/-! ### Events come back as structs -/

theorem getEventCls_todoEvent (e : TodoEvent) :
    (getEventCls eventTypes ord registry.1 (eventTypes.classes e.cls).deafultTypeid pydanticEvent).2 = .ok e.cls := by
  have hcls : e.cls = todoCreated ∨ e.cls = todoRetitled := by cases e <;> simp [TodoEvent.cls]
  have hevent : ∀ c, c = todoCreated ∨ c = todoRetitled → eventTypes.IsEvent c := by
    have h5 : eventTypes.graph.DirectSub 5 pydanticEvent := by
      show pydanticEvent ∈ eventTypes.graph.basesOf 5
      decide
    rintro c (rfl | rfl)
    · refine .tail (.single ?_) h5
      show 5 ∈ eventTypes.graph.basesOf todoCreated
      decide
    · refine .tail (.single ?_) h5
      show 5 ∈ eventTypes.graph.basesOf todoRetitled
      decide
  have huniq : ∀ d, eventTypes.IsEvent d → (eventTypes.classes d).typeId = (eventTypes.classes e.cls).typeId →
      d = e.cls := by
    intro d hd htype
    have hsize : eventTypes.graph.size = 8 := by decide
    obtain ⟨hlt, hlt'⟩ := hd.lt
    rw [hsize] at hlt'
    have hnat : ∀ n : Nat, 4 < n → n < 8 → n = 5 ∨ n = 6 ∨ n = 7 := by omega
    have hcases := hnat d hlt hlt'
    have hids : (eventTypes.classes 5).typeId ≠ (eventTypes.classes todoCreated).typeId ∧
        (eventTypes.classes 5).typeId ≠ (eventTypes.classes todoRetitled).typeId ∧
          (eventTypes.classes todoCreated).typeId ≠ (eventTypes.classes todoRetitled).typeId := by
      decide +kernel
    obtain ⟨h56, h57, h67⟩ := hids
    rcases hcls with hc | hc <;> rw [hc] at htype ⊢
    · rcases hcases with rfl | rfl | rfl
      · exact absurd htype h56
      · rfl
      · exact absurd htype.symm h67
    · rcases hcases with rfl | rfl | rfl
      · exact absurd htype h57
      · exact absurd htype h67
      · rfl
  have htypeId : (eventTypes.classes e.cls).deafultTypeid = (eventTypes.classes e.cls).typeId := by
    cases e <;> rfl
  rw [htypeId]
  exact getEventCls_eq registry.2 ord (hevent _ hcls) huniq

/-- The fields of the struct classes: the own ones are positional and come first. -/
theorem structFields_todoEvent (e : TodoEvent) :
    ∀ f, f ∈ (structTypes.struct e.cls).structFields ↔
      f ∈ BASE_FIELDS ∨ f = "title" ∨ e.cls = todoCreated ∧ f = "content" := by
  have hcreated : (structTypes.struct todoCreated).structFields =
      ["title", "content", "entity_id", "event_id", "timestamp"] := by
    decide
  have hretitled : (structTypes.struct todoRetitled).structFields =
      ["title", "entity_id", "event_id", "timestamp"] := by
    decide
  intro f
  cases e with
  | created base title content =>
    rw [TodoEvent.cls, hcreated]
    simp only [BASE_FIELDS, List.mem_cons, List.not_mem_nil, or_false, true_and]
    tauto
  | retitled base title =>
    have hne : todoRetitled ≠ todoCreated := by decide
    rw [TodoEvent.cls, hretitled]
    simp only [BASE_FIELDS, List.mem_cons, List.not_mem_nil, or_false, hne, false_and]
    tauto

theorem ownFirst_todoEvent (e : TodoEvent) : (structTypes.struct e.cls).OwnFirst := by
  have hcreated : (structTypes.struct todoCreated).OwnFirst := by decide
  have hretitled : (structTypes.struct todoRetitled).OwnFirst := by decide
  cases e with
  | created base title content => exact hcreated
  | retitled base title => exact hretitled

/-- The fields of an event lead back to it. -/
theorem ofFields?_value (e : TodoEvent) {field : String → Option Json}
    (h : ∀ f, f ∈ BASE_FIELDS ∨ f = "title" ∨ e.cls = todoCreated ∧ f = "content" → field f = some (e.value f)) :
    TodoEvent.ofFields? e.cls field = some e := by
  have hid := h "entity_id" (Or.inl (by decide))
  have heid := h "event_id" (Or.inl (by decide))
  have htime := h "timestamp" (Or.inl (by decide))
  have htitle := h "title" (Or.inr (Or.inl rfl))
  cases e with
  | created base title content =>
    have hcontent := h "content" (Or.inr (Or.inr ⟨rfl, rfl⟩))
    simp [TodoEvent.ofFields?, TodoEvent.cls, hid, heid, htime, htitle, hcontent, TodoEvent.value, TodoEvent.base]
  | retitled base title =>
    simp [TodoEvent.ofFields?, TodoEvent.cls, hid, heid, htime, htitle, TodoEvent.value, TodoEvent.base, todoCreated,
      todoRetitled]

/-- Every event is read back from its row. -/
theorem mappingToEvent_todoStructs (g : Generated) (e : TodoEvent) :
    (todoStructs ord registry default).mappingToEvent
      (EventTable.row g ((todoStructs ord registry default).normalized e)) = .ok e := by
  obtain ⟨e', he', hcls, hsame⟩ := e.toStruct.read_ok ord registry.1 default g (getEventCls_todoEvent ord registry e)
    (ownFirst_todoEvent e)
  simp only [todoStructs, he']
  have hread : TodoEvent.ofFields? e.cls e'.event.fields.get? = some e := by
    refine ofFields?_value e fun f hf => ?_
    rw [hsame f, TodoEvent.toStruct, StructEvent.get?_ofFields, if_pos ((structFields_todoEvent e f).2 hf)]
  have hcls' : e'.cls = e.cls := hcls
  rw [← hcls'] at hread
  rw [hread]
  rfl

theorem decodes_todoStructs (events : List (Generated × TodoEvent)) :
    Decodes (todoStructs ord registry default) events where
  decodes p _ := mappingToEvent_todoStructs ord registry default p.1 p.2
  entityId p _ := by
    obtain ⟨v, hv, hn⟩ := p.2.toStruct.event.get?_normalized (f := "entity_id") (by decide)
    rw [TodoEvent.toStruct, StructEvent.get?_ofFields,
      if_pos ((structFields_todoEvent p.2 "entity_id").2 (Or.inl (by decide)))] at hv
    cases hv
    exact hn

/-- The table takes every event of the demo whose id is new. -/
theorem identified_todoStructs (events : List (Generated × TodoEvent)) :
    Identified (todoStructs ord registry default) TodoEvent.eventId events := by
  have hget : ∀ (e : TodoEvent), ∀ f ∈ BASE_FIELDS, e.toStruct.event.fields.get? f = some (e.value f) := by
    intro e f hf
    rw [TodoEvent.toStruct, StructEvent.get?_ofFields, if_pos ((structFields_todoEvent e f).2 (Or.inl hf))]
  constructor
  · intro p _
    have hid : "event_id" ∈ BASE_FIELDS := by decide
    exact (p.2.toStruct.get?_base hid).trans (hget p.2 "event_id" hid)
  · intro p _
    have hfits : p.2.toStruct.Fits := by
      intro f hf
      rw [hget p.2 f hf]
      simp only [BASE_FIELDS, List.mem_cons, List.not_mem_nil, or_false] at hf
      rcases hf with rfl | rfl | rfl <;> rfl
    exact (EventTable.insert_eq_ok.1 (StructEvent.insert_eq_ok.2 ⟨hfits, rfl⟩ :
      EventTable.insert p.1 p.2.toStruct.event.normalized = .ok _)).1

/-- What a call does to the event table, `EventStore.add` does to its rows. -/
theorem add_todoStructs (s : TodoApp) (c : Nat) (g : Generated) (event : TodoEvent) :
    (event.eventId ∉ s.events.map (fun p => p.2.eventId) →
      add (todoStructs ord registry default) (s.rows (todoStructs ord registry default)) g event =
        .ok ((s.store c g event).rows (todoStructs ord registry default))) ∧
    (event.eventId ∈ s.events.map (fun p => p.2.eventId) →
      (s.store c g event).events = s.events ∧
        ∃ e, add (todoStructs ord registry default) (s.rows (todoStructs ord registry default)) g event =
          .error e) := by
  have hevent := identified_todoStructs ord registry default [(g, event)]
  have hstored := (identified_todoStructs ord registry default s.events).eventId
  obtain ⟨hnew, hold⟩ := add_identified hevent hstored
  refine ⟨fun h => ?_, fun h => ⟨?_, hold h⟩⟩
  · rw [TodoApp.store, if_neg h]
    exact hnew h
  · rw [TodoApp.store, if_pos h]
    rfl

/-- `list_events` returns the stored events of the todo, in order. -/
theorem listEvents_todoStructs (s : TodoApp) (todoId : String) :
    listEvents (todoStructs ord registry default) (s.rows (todoStructs ord registry default)) todoId =
      .ok (ofTodo todoId (s.events.map Prod.snd)) :=
  listEvents_eq (decodes_todoStructs ord registry default s.events) todoId

/-- So the query returns what `__normalized__` makes of them. -/
theorem listEventsOf_todoStructs (s : TodoApp) (todoId : String) :
    listEventsOf (todoStructs ord registry default) (s.rows (todoStructs ord registry default)) todoId =
      .ok ((ofTodo todoId (s.events.map Prod.snd)).map (todoStructs ord registry default).normalized) := by
  rw [listEventsOf, listEvents_todoStructs]
  rfl

/-! ### Events do not come back as models -/

theorem mappingToEvent_todoModels (g : Generated) (e : TodoEvent) :
    (todoModels ord registry default).mappingToEvent
      (EventTable.row g ((todoModels ord registry default).normalized e)) = .error .typeError := by
  have hown : (eventTypes.classes e.toModel.cls).ownFields ≠ [] := by
    have hcreated : (eventTypes.classes todoCreated).ownFields ≠ [] := by decide
    have hretitled : (eventTypes.classes todoRetitled).ownFields ≠ [] := by decide
    cases e with
    | created base title content => exact hcreated
    | retitled base title => exact hretitled
  have hread := e.toModel.mappingToEvent_row ord registry.1 default g (getEventCls_todoEvent ord registry e)
  rw [Event.construct_own _ _ hown] at hread
  simp only [todoModels]
  rw [eventToMapping] at hread
  rw [hread]

theorem hasEntityId_toModel (g : Generated) (e : TodoEvent) (todoId : String) :
    hasEntityId todoId (EventTable.row g e.toModel.normalized) = (e.entityId == todoId) := by
  have hmem : "entity_id" ∈ (eventTypes.classes e.cls).fields := by
    rw [EventClass.fields_eq]
    exact List.mem_append_left _ (by decide)
  have hfield : e.toModel.fields.get? "entity_id" = some (e.value "entity_id") := Event.get?_ofFields e.cls e.value hmem
  have hvalue : e.value "entity_id" = .str e.entityId := if_pos rfl
  have hbase : "entity_id" ∈ BASE_FIELDS := by decide
  have hcolumn : "entity_id" ∈ EventTable.columns := by decide
  rw [hvalue, ← e.toModel.get?_normalized hbase] at hfield
  rw [hasEntityId, get?_row g _ hcolumn, hfield, Option.getD_some]

/-- The rows of the events of the todo. -/
theorem filter_rows_todoModels (events : List (Generated × TodoEvent)) (todoId : String) :
    (addAll (todoModels ord registry default) events).filter (hasEntityId todoId) =
      (events.filter fun p => p.2.entityId == todoId).map fun p => EventTable.row p.1 p.2.toModel.normalized := by
  have hrows : addAll (todoModels ord registry default) events =
      events.map fun p => EventTable.row p.1 p.2.toModel.normalized := rfl
  have hfilter : events.filter (hasEntityId todoId ∘ fun p => EventTable.row p.1 p.2.toModel.normalized) =
      events.filter fun p => p.2.entityId == todoId := by
    refine List.filter_congr fun p _ => ?_
    rw [Function.comp_apply, hasEntityId_toModel]
  rw [hrows, List.filter_map, hfilter]

/-- With `pydantic` no stored event can be read: `list_events` raises for each todo that has one, and `list_todos` as
soon as there is one. -/
theorem pydantic_todos_unreadable (s : TodoApp) :
    (∀ todoId, ofTodo todoId (s.events.map Prod.snd) ≠ [] →
        listEvents (todoModels ord registry default) (s.rows (todoModels ord registry default)) todoId =
          .error .typeError) ∧
      (s.events ≠ [] → listTodos (todoModels ord registry default) (s.rows (todoModels ord registry default)) =
        .error (.row .typeError)) := by
  constructor
  · intro todoId hne
    rw [listEvents, TodoApp.rows, filter_rows_todoModels]
    cases hf : s.events.filter fun p => p.2.entityId == todoId with
    | nil =>
      refine absurd ?_ hne
      rw [ofTodo, List.filter_map, List.map_eq_nil_iff]
      exact hf
    | cons p events =>
      -- the first event of the todo raises
      have hp := mappingToEvent_todoModels ord registry default p.1 p.2
      rw [List.map_cons, decodeRows]
      simp only [show (todoModels ord registry default).normalized p.2 = p.2.toModel.normalized from rfl] at hp
      rw [hp]
  · intro hne
    obtain ⟨p, events, hevents⟩ := List.exists_cons_of_ne_nil hne
    rw [listTodos, TodoApp.rows, addAll, hevents, allEventStreams, listAllEvents, List.map_cons, List.map_cons,
      mappingToEvent_todoModels]
    rfl

/-! ### The row and the events of a todo -/

/-- In every run in which no call writes the todo while another is between its two writes for it, and none raises
there: whenever no call is between these writes, the row of the todo is what `Todo.rebuild` makes of the events that
`list_events` returns, and there is a row as soon as there are events. -/
theorem row_matches_events {acts : List TodoAct} {s : TodoApp} (hrun : Run.run TodoApp.step .new acts = some s)
    (todoId : String) (hu : Run.Meets TodoApp.step (Undisturbed todoId) .new acts)
    (hidle : ∀ e, .storing e ∈ s.calls → e.entityId ≠ todoId) :
    ∃ events, listEvents (todoStructs ord registry default) (s.rows (todoStructs ord registry default)) todoId =
        .ok events ∧
      ((events = [] ∧ TodoRepository.get s.todos todoId = .ok none) ∨
        ∃ todo, TodoRepository.get s.todos todoId = .ok (some todo) ∧ Todo.rebuild events = .ok (some todo)) := by
  have hnone : s.calls.filterMap (Phase.pending todoId) = [] := by
    refine List.filterMap_eq_nil_iff.2 fun p hp => ?_
    cases p with
    | storing e => exact if_neg (hidle e hp)
    | _ => rfl
  have horder := (inStep_run hrun hu).order
  rw [hnone, List.append_nil] at horder
  have hs := sound_run hrun
  obtain ⟨hnodup, habsent, hrow⟩ := hs.table.rows
  refine ⟨_, listEvents_todoStructs ord registry default s todoId, ?_⟩
  rw [← horder]
  rcases get_eq hnodup todoId with ⟨hno, hget⟩ | ⟨todo, ht, rfl, hget⟩
  · exact Or.inl ⟨habsent todoId hno, hget⟩
  · exact Or.inr ⟨todo, hget, hrow todo ht⟩

end

namespace TodoRuns

/-- The registry before any lookup. -/
def emptyRegistry : {r : Dict String Cls // Filed eventTypes r} := ⟨.empty, fun id c h => by simp at h⟩

/-- One call creates the todo `a` and has stored its event. -/
def created : List TodoAct := [.addNewTodo ⟨"a", "tea", "green"⟩ "1" "t", .go 0 g, .go 0 g]

def afterCreated : TodoApp where
  todos := [⟨"a", "tea", "green", false⟩]
  events := [(g, teaCreated)]
  calls := [.publishing teaCreated]
  written := [teaCreated]

def milkCreated : TodoEvent := .created ⟨"b", "4", "t"⟩ "milk" "oat"

/-- The todo `a` is renamed, and `b` created between the two writes of this. -/
def renamed : List TodoAct :=
  created ++ [.renameTodo ⟨"a", "coffee"⟩ "2" "t", .go 1 g, .go 1 g, .addNewTodo ⟨"b", "milk", "oat"⟩ "4" "t", .go 2 g,
    .go 1 g, .go 2 g]

def afterTwo : TodoApp where
  todos := [⟨"a", "coffee", "green", false⟩, ⟨"b", "milk", "oat", false⟩]
  events := [(g, teaCreated), (g, coffee), (g, milkCreated)]
  calls := [.publishing teaCreated, .publishing coffee, .publishing milkCreated]
  written := [teaCreated, coffee, milkCreated]

theorem run_two : Run.run TodoApp.step .new renamed = some afterTwo := by
  rfl

/-- The row of `a` is that of its two events. -/
theorem renamed_row_matches :
    ∃ events, listEvents (todoStructs .listed emptyRegistry fun _ => none)
        (afterTwo.rows (todoStructs .listed emptyRegistry fun _ => none)) "a" = .ok events ∧
      ((events = [] ∧ TodoRepository.get afterTwo.todos "a" = .ok none) ∨
        ∃ todo, TodoRepository.get afterTwo.todos "a" = .ok (some todo) ∧ Todo.rebuild events = .ok (some todo)) := by
  have hun : Run.Meets TodoApp.step (Undisturbed "a") .new renamed := by decide +kernel
  refine row_matches_events .listed emptyRegistry (fun _ => none) run_two "a" hun fun e he => ?_
  simp [afterTwo] at he

theorem created_unreadable :
    Run.run TodoApp.step .new created = some afterCreated ∧
      listTodos (todoModels .listed emptyRegistry fun _ => none)
        (afterCreated.rows (todoModels .listed emptyRegistry fun _ => none)) = .error (.row .typeError) :=
  ⟨by rfl, (pydantic_todos_unreadable .listed emptyRegistry (fun _ => none) afterCreated).2 fun h => (by cases h)⟩

end TodoRuns

end Anywise.Demo
