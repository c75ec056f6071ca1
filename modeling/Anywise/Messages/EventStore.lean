import Anywise.Lib.Grouping
import Anywise.Messages.Table

/-!
# The event store

`all_event_streams` reads the whole table and cuts the events where the entity id changes, so it yields the runs of
equal entity ids (`streamLoop_runs`).  These are the histories of the entities exactly when no event of another entity
stands between two events of the same one (`streams_iff`).
-/

namespace Anywise.Messages

/-! ### Events as the store sees them -/

/-- What the store uses of events. -/
structure EventModel (E : Type) where
  entityId : E → String
  normalized : E → Dict String Json
  /-- what `mapping_to_event` returns for a row -/
  mappingToEvent : Row → Except PyErr E

/-- The instances of the classes derived from `PydanticEvent`. -/
def pydanticEvents (t : EventTypes) (ord : SetOrder) (registry : Dict String Cls) (default : String → Option Json) :
    EventModel (Event t) where
  entityId e :=
    match e.fields.get? "entity_id" with
    | some (.str s) => s
    | _ => ""
  normalized := Event.normalized
  mappingToEvent row := (Messages.mappingToEvent t ord registry default row).2

section Store

variable {E : Type} (m : EventModel E)

/-- `EventTable.entity_id == entity_id` -/
def hasEntityId (entityId : String) (row : Row) : Bool :=
  match row.get? "entity_id" with
  | some (.json (.str s)) => s == entityId
  | _ => false

/-- `add(event)`: the rows of the table afterwards.  The database raises when it has the event id. -/
def add (rows : List Row) (g : Generated) (event : E) : Except PyErr (List Row) :=
  match EventTable.insert g (m.normalized event) with
  | .error e => .error e
  | .ok row => if EventTable.hasEventId rows row then .error .dbapiError else .ok (rows ++ [row])

/-- A list comprehension with a call that may raise. -/
def decodeRows : List Row → Except PyErr (List E)
  | [] => .ok []
  | row :: rows =>
    match m.mappingToEvent row with
    | .error e => .error e
    | .ok event =>
      match decodeRows rows with
      | .error e => .error e
      | .ok events => .ok (event :: events)

/-- `list_events(entity_id)` -/
def listEvents (rows : List Row) (entityId : String) : Except PyErr (List E) :=
  decodeRows m (rows.filter (hasEntityId entityId))

/-- `list_all_events()`: what is yielded, up to the first exception. -/
def listAllEvents (rows : List Row) : List (Except PyErr E) := rows.map m.mappingToEvent

/-- The loop of `all_event_streams`: what is yielded, and the exception that ends it. -/
def streamLoop (entityId : E → String) (grouped : Dict String (List E)) (currentId : String) :
    List (Except PyErr E) → List (List E) × Option PyErr
  | [] => (if currentId ≠ "" then [grouped.getD currentId] else [], none)
  | .error e :: _ => ([], some e)
  | .ok e :: events =>
    if currentId ≠ "" ∧ currentId ≠ entityId e then
      -- `yield grouped[current_id]`, then `del grouped[current_id]`
      let rest := streamLoop entityId ((grouped.erase currentId).extend (entityId e) [e]) (entityId e) events
      (grouped.getD currentId :: rest.1, rest.2)
    else streamLoop entityId (grouped.extend (entityId e) [e]) (entityId e) events

/-- `all_event_streams()` -/
def allEventStreams (rows : List Row) : List (List E) × Option PyErr :=
  streamLoop m.entityId .empty "" (listAllEvents m rows)

/-- The rows after all events have been added, one after another. -/
def addAll (events : List (Generated × E)) : List Row := events.map fun p => EventTable.row p.1 (m.normalized p.2)

/-- The rows of the events are decoded again, and have their entity ids. -/
structure Decodes (events : List (Generated × E)) : Prop where
  decodes : ∀ p ∈ events, m.mappingToEvent (EventTable.row p.1 (m.normalized p.2)) = .ok p.2
  entityId : ∀ p ∈ events, (m.normalized p.2).get? "entity_id" = some (.str (m.entityId p.2))

end Store

/-! ### What is yielded -/

section

variable {E : Type} {m : EventModel E}

/-- No event of the run has the empty id. -/
def named (entityId : E → String) (run : List E) : Bool := run.all fun e => entityId e != ""

/-- What is buffered, besides the events with the empty id: for the current id the events `group`. -/
inductive Buffers (entityId : E → String) (grouped : Dict String (List E)) : String → List E → Prop
  | none (hother : ∀ i, i ≠ "" → grouped.getD i = []) : Buffers entityId grouped "" []
  | some {currentId : String} (hcur : currentId ≠ "") (hne : grouped.getD currentId ≠ [])
      (hgroup : ∀ e ∈ grouped.getD currentId, entityId e = currentId)
      (hother : ∀ i, i ≠ "" → i ≠ currentId → grouped.getD i = []) :
      Buffers entityId grouped currentId (grouped.getD currentId)

/-- The loop yields the runs of the buffered group and the events to come, but not those of the empty id. -/
theorem streamLoop_eq {entityId : E → String} {grouped : Dict String (List E)} {currentId : String} {group : List E}
    (hbuf : Buffers entityId grouped currentId group) (events : List E) :
    streamLoop entityId grouped currentId (events.map .ok) =
      ((Grouping.runs entityId (group ++ events)).filter (named entityId), none) := by
  have hnamed : ∀ {i : String} {run : List E}, i ≠ "" → (∀ e ∈ run, entityId e = i) → named entityId run = true :=
    fun hi hrun => List.all_eq_true.2 fun e he => bne_iff_ne.2 (hrun e he ▸ hi)
  induction events generalizing grouped currentId group with
  | nil =>
    cases hbuf with
    | none hother => simp [streamLoop, Grouping.runs]
    | some hcur hne hgroup hother =>
      rw [List.append_nil, Grouping.runs_of_forall hne hgroup, List.filter_cons_of_pos (hnamed hcur hgroup)]
      simp [streamLoop, hcur]
  | cons e events ih =>
    -- a new group, while nothing is buffered
    have hbegin : ∀ d : Dict String (List E), (∀ i, i ≠ "" → d.getD i = []) →
        streamLoop entityId (d.extend (entityId e) [e]) (entityId e) (events.map .ok) =
          ((Grouping.runs entityId (e :: events)).filter (named entityId), none) := by
      intro d hd
      by_cases he : entityId e = ""
      · have hdrop : ∀ g, g ≠ [] → (∀ x ∈ g, entityId x = entityId e) → named entityId g = false := by
          intro g hne hg
          obtain ⟨x, hx⟩ := List.exists_mem_of_ne_nil g hne
          rw [he] at hg
          exact List.all_eq_false.2 ⟨x, hx, by simp [hg x hx]⟩
        rw [he, ih (.none fun i hi => ?_), Grouping.filter_runs_cons hdrop, List.nil_append]
        rw [Dict.getD_extend, if_neg (Ne.symm hi), hd i hi]
      · have hext : (d.extend (entityId e) [e]).getD (entityId e) = [e] := by
          rw [Dict.getD_extend, if_pos rfl, hd _ he, List.nil_append]
        rw [ih (.some he (by simp [hext]) (by simp [hext]) fun i hi hne => ?_), hext, List.singleton_append]
        rw [Dict.getD_extend, if_neg (Ne.symm hne), hd i hi]
    rw [List.map_cons, streamLoop]
    cases hbuf with
    | none hother => rw [if_neg (fun h => h.1 rfl), hbegin grouped hother, List.nil_append]
    | some hcur hne hgroup hother =>
      by_cases he : currentId = entityId e
      · -- the entity goes on
        subst he
        have hext : (grouped.extend (entityId e) [e]).getD (entityId e) = grouped.getD (entityId e) ++ [e] := by
          rw [Dict.getD_extend, if_pos rfl]
        rw [if_neg (fun h => h.2 rfl), ih (.some hcur (by simp [hext]) (fun x hx => ?_) fun i hi hne => ?_), hext,
          List.append_assoc, List.singleton_append]
        · rw [hext, List.mem_append, List.mem_singleton] at hx
          rcases hx with hx | rfl
          · exact hgroup x hx
          · rfl
        · rw [Dict.getD_extend, if_neg (Ne.symm hne), hother i hi hne]
      · -- another entity begins
        rw [if_pos ⟨hcur, he⟩, hbegin _ fun i hi => ?_]
        · rw [Grouping.runs_append hne hgroup (by simpa using Ne.symm he),
            List.filter_cons_of_pos (hnamed hcur hgroup)]
        · rw [Dict.getD_erase]
          split
          · rfl
          · rename_i hno
            exact hother i hi (Ne.symm hno)

/-- From the beginning, the loop yields the runs, but not those of the empty id. -/
theorem streamLoop_runs (entityId : E → String) (events : List E) :
    streamLoop entityId .empty "" (events.map .ok) =
      ((Grouping.runs entityId events).filter (named entityId), none) :=
  streamLoop_eq (.none fun _ _ => rfl) events

/-- From the beginning, the loop yields the runs. -/
theorem streamLoop_start {entityId : E → String} {events : List E} (hids : ∀ e ∈ events, entityId e ≠ "") :
    streamLoop entityId .empty "" (events.map .ok) = (Grouping.runs entityId events, none) := by
  have hall : ∀ g ∈ Grouping.runs entityId events, named entityId g = true := by
    intro g hg
    refine List.all_eq_true.2 fun e he => bne_iff_ne.2 (hids e ?_)
    rw [← (Grouping.runs_cutAt entityId events).flatten]
    exact List.mem_flatten.2 ⟨g, hg, he⟩
  rw [streamLoop_runs, List.filter_eq_self.2 hall]

/-! ### The rows of added events -/

variable {events : List (Generated × E)}

/-- An event is added when its values fit the columns and its id is new. -/
theorem add_eq_ok {rows rows' : List Row} {g : Generated} {event : E} :
    add m rows g event = .ok rows' ↔
      (∀ c ∈ EventTable.columns, EventTable.fits c (EventTable.value (m.normalized event) c) = true) ∧
        EventTable.hasEventId rows (EventTable.row g (m.normalized event)) = false ∧
          rows' = rows ++ [EventTable.row g (m.normalized event)] := by
  unfold add
  cases hins : EventTable.insert g (m.normalized event) with
  | error e =>
    constructor
    · intro h
      cases h
    · rintro ⟨hfits, -⟩
      rw [EventTable.insert_eq_ok.2 ⟨hfits, rfl⟩] at hins
      cases hins
  | ok row =>
    obtain ⟨hfits, rfl⟩ := EventTable.insert_eq_ok.1 hins
    dsimp only
    split
    · rename_i hid
      constructor
      · intro h
        cases h
      · rintro ⟨-, hno, -⟩
        rw [hid] at hno
        cases hno
    · rename_i hid
      rw [Except.ok.injEq, eq_comm]
      exact ⟨fun h => ⟨hfits, Bool.eq_false_iff.2 hid, h⟩, fun h => h.2.2⟩

theorem listAllEvents_eq (h : Decodes m events) :
    listAllEvents m (addAll m events) = (events.map Prod.snd).map .ok := by
  rw [listAllEvents, addAll, List.map_map, List.map_map]
  exact List.map_congr_left fun p hp => h.decodes p hp

theorem decodeRows_eq (h : Decodes m events) :
    decodeRows m (events.map fun p => EventTable.row p.1 (m.normalized p.2)) = .ok (events.map Prod.snd) := by
  induction events with
  | nil => rfl
  | cons p events ih =>
    have hrest : Decodes m events :=
      ⟨fun q hq => h.decodes q (List.mem_cons_of_mem _ hq), fun q hq => h.entityId q (List.mem_cons_of_mem _ hq)⟩
    simp only [List.map_cons, decodeRows, h.decodes p List.mem_cons_self, ih hrest]

/-- The row of an event of a class derived from `PydanticEvent` has its entity id, which is a string. -/
theorem entityId_pydanticEvents {t : EventTypes} (ord : SetOrder) (registry : Dict String Cls)
    (default : String → Option Json) (e : Event t) {entityId : String}
    (h : e.fields.get? "entity_id" = some (.str entityId)) :
    (pydanticEvents t ord registry default).entityId e = entityId ∧
      ((pydanticEvents t ord registry default).normalized e).get? "entity_id" = some (.str entityId) := by
  refine ⟨?_, (e.get?_normalized (by decide)).trans h⟩
  simp [pydanticEvents, h]

/-- `list_events` returns the events of the entity in the order of insertion. -/
theorem listEvents_eq (h : Decodes m events) (entityId : String) :
    listEvents m (addAll m events) entityId = .ok (Grouping.group m.entityId (events.map Prod.snd) entityId) := by
  have hcol : ∀ p ∈ events, hasEntityId entityId (EventTable.row p.1 (m.normalized p.2)) =
      (m.entityId p.2 == entityId) := by
    intro p hp
    unfold hasEntityId
    rw [get?_row _ _ (by decide), h.entityId p hp]
    rfl
  have hfilter : (addAll m events).filter (hasEntityId entityId) =
      (events.filter fun p => m.entityId p.2 == entityId).map fun p =>
        EventTable.row p.1 (m.normalized p.2) := by
    rw [addAll, List.filter_map]
    exact congrArg _ (List.filter_congr hcol)
  have hsub : Decodes m (events.filter fun p => m.entityId p.2 == entityId) :=
    ⟨fun p hp => h.decodes p (List.mem_of_mem_filter hp), fun p hp => h.entityId p (List.mem_of_mem_filter hp)⟩
  rw [listEvents, hfilter, decodeRows_eq hsub, Grouping.group, List.filter_map]
  rfl

/-- `all_event_streams` yields one list for each entity that occurs, the one that `list_events` returns. -/
def StreamsEntities (m : EventModel E) (rows : List Row) (events : List E) : Prop :=
  (allEventStreams m rows).2 = none ∧
    ∃ ids : List String, ids.Nodup ∧ (∀ i, i ∈ ids ↔ ∃ e ∈ events, m.entityId e = i) ∧
      (allEventStreams m rows).1.map .ok = ids.map (listEvents m rows)

theorem streamsEntities_iff (h : Decodes m events) (hids : ∀ p ∈ events, m.entityId p.2 ≠ "") :
    StreamsEntities m (addAll m events) (events.map Prod.snd) ↔
      Grouping.Contiguous m.entityId (events.map Prod.snd) := by
  have hstreams : allEventStreams m (addAll m events) = (Grouping.runs m.entityId (events.map Prod.snd), none) := by
    rw [allEventStreams, listAllEvents_eq h, streamLoop_start]
    rintro e he
    obtain ⟨p, hp, rfl⟩ := List.mem_map.1 he
    exact hids p hp
  have hlist : listEvents m (addAll m events) =
      Except.ok ∘ Grouping.group m.entityId (events.map Prod.snd) := funext (listEvents_eq h)
  unfold StreamsEntities
  rw [← Grouping.runs_areGroups_iff, hstreams, hlist]
  simp only [true_and, Grouping.AreGroups, ← List.map_map]
  have hinj : Function.Injective (List.map (Except.ok : List E → Except PyErr (List E))) :=
    List.map_injective_iff.2 fun a b hab => Except.ok.inj hab
  simp only [hinj.eq_iff]

/-- After adding any events with non-empty entity ids: `list_events` returns the history of an entity; and
`all_event_streams` yields these histories, each once, exactly when every event that has a later event of its entity
is followed by one of its entity. -/
theorem streams_iff (m : EventModel E) (events : List (Generated × E)) (h : Decodes m events)
    (hids : ∀ p ∈ events, m.entityId p.2 ≠ "") :
    (∀ i, listEvents m (addAll m events) i = .ok ((events.map Prod.snd).filter fun e => m.entityId e == i)) ∧
    (StreamsEntities m (addAll m events) (events.map Prod.snd) ↔
      Grouping.Contiguous m.entityId (events.map Prod.snd)) :=
  ⟨listEvents_eq h, streamsEntities_iff h hids⟩

end

/-! ### Two todos -/

namespace TodoApp

/-- An event of the todo with the given id. -/
def todoEvent (entityId eventId : String) : Event (created []).types :=
  .ofFields _ 5 fun f => .str (if f = "entity_id" then entityId else eventId)

def todoEvents : EventModel (Event (created []).types) :=
  pydanticEvents (created []).types .listed .empty fun _ => none

theorem decodes_todoEvent (g : Generated) (entityId eventId : String) :
    todoEvents.mappingToEvent (EventTable.row g (todoEvents.normalized (todoEvent entityId eventId))) =
      .ok (todoEvent entityId eventId) := by
  have hres : (getEventCls (created []).types .listed .empty
      ((created []).types.classes (todoEvent entityId eventId).cls).deafultTypeid pydanticEvent).2 =
      .ok (todoEvent entityId eventId).cls := by
    show (getEventCls (created []).types .listed .empty
      ((created []).types.classes 5).deafultTypeid pydanticEvent).2 = .ok 5
    decide +kernel
  have hown : ((created []).types.classes (todoEvent entityId eventId).cls).ownFields = [] := rfl
  have hread := (todoEvent entityId eventId).mappingToEvent_row .listed .empty (fun _ => none) g hres
  simp only [hown, List.length_nil, List.take_zero, Event.attrs, List.filterMap_nil, List.map_nil, List.append_nil,
    Event.construct_base _ _ hown, eventToMapping] at hread
  simp only [todoEvents, pydanticEvents, hread]
  refine congrArg _ (Event.ofFields_congr _ fun f hf => ?_)
  have hget : (todoEvent entityId eventId).fields.get? f =
      some (.str (if f = "entity_id" then entityId else eventId)) := Event.get?_ofFields 5 _ hf
  rw [hget, Option.getD_some]

theorem entityId_todoEvent (entityId eventId : String) :
    todoEvents.entityId (todoEvent entityId eventId) = entityId ∧
      (todoEvents.normalized (todoEvent entityId eventId)).get? "entity_id" = some (.str entityId) :=
  entityId_pydanticEvents _ _ _ _ (Event.get?_ofFields 5 _ (by decide))

/-- Events of todos, stored in order. -/
def history (todos : List (String × String)) : List (Generated × Event (created []).types) :=
  todos.map fun p => (⟨1, 0, 0⟩, todoEvent p.1 p.2)

theorem decodes_history (todos : List (String × String)) : Decodes todoEvents (history todos) where
  decodes p hp := by
    obtain ⟨q, -, rfl⟩ := List.mem_map.1 hp
    exact decodes_todoEvent _ _ _
  entityId p hp := by
    obtain ⟨q, -, rfl⟩ := List.mem_map.1 hp
    obtain ⟨hid, hcol⟩ := entityId_todoEvent q.1 q.2
    rw [hid]
    exact hcol

theorem ids_history {todos : List (String × String)} (h : ∀ p ∈ todos, p.1 ≠ "") :
    ∀ p ∈ history todos, todoEvents.entityId p.2 ≠ "" := by
  intro p hp
  obtain ⟨q, hq, rfl⟩ := List.mem_map.1 hp
  rw [(entityId_todoEvent q.1 q.2).1]
  exact h q hq

/-- An event of todo `b` between two of todo `a`: the history of `a` is yielded in two pieces. -/
theorem interleaved_splits :
    Decodes todoEvents (history [("a", "1"), ("b", "2"), ("a", "3")]) ∧
      (∀ p ∈ history [("a", "1"), ("b", "2"), ("a", "3")], todoEvents.entityId p.2 ≠ "") ∧
      ¬ StreamsEntities todoEvents (addAll todoEvents (history [("a", "1"), ("b", "2"), ("a", "3")]))
        ((history [("a", "1"), ("b", "2"), ("a", "3")]).map Prod.snd) := by
  refine ⟨decodes_history _, ids_history (by decide), fun h => ?_⟩
  have hcont := (streamsEntities_iff (decodes_history _) (ids_history (by decide))).1 h
  obtain ⟨b, hb, hid⟩ := hcont [] (todoEvent "a" "1") [todoEvent "b" "2", todoEvent "a" "3"] rfl
    ⟨todoEvent "a" "3", by simp, by simp [entityId_todoEvent]⟩
  cases hb
  simp [entityId_todoEvent] at hid

/-- With the events of each todo together, both histories are yielded. -/
theorem contiguous_streams :
    StreamsEntities todoEvents (addAll todoEvents (history [("a", "1"), ("a", "2"), ("b", "3")]))
      ((history [("a", "1"), ("a", "2"), ("b", "3")]).map Prod.snd) := by
  refine (streams_iff todoEvents _ (decodes_history _) (ids_history (by decide))).2.2 fun pre e post hl => ?_
  rcases pre with _ | ⟨p, _ | ⟨q, _ | ⟨r, pre⟩⟩⟩
  · cases hl
    simp [entityId_todoEvent]
  · cases hl
    simp [entityId_todoEvent]
  · cases hl
    simp
  · simp [history] at hl

end TodoApp

end Anywise.Messages
