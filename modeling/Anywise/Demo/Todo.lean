import Anywise.Messages.Entity
import Anywise.Messages.EventStore

/-!
# The todo app of the demo

A command of the demo writes twice: a row of the todo table, and an event into the event store.  Each write is a
transaction of its own, and calls run concurrently, so others may write in between, and a call may raise there.
-/

namespace Anywise.Demo

open Messages

/-! ### Events and todos -/

/-- The fields of the base, which every event has. -/
structure EventBase where
  entityId : String
  eventId : String
  timestamp : String

inductive TodoEvent
  /-- `TodoCreated` -/
  | created (base : EventBase) (title content : String)
  /-- `TodoRetitled` -/
  | retitled (base : EventBase) (title : String)

def TodoEvent.base : TodoEvent → EventBase
  | created base _ _ => base
  | retitled base _ => base

def TodoEvent.entityId (e : TodoEvent) : String := e.base.entityId

def TodoEvent.eventId (e : TodoEvent) : String := e.base.eventId

/-- It is a `TodoCreated`. -/
def TodoEvent.isCreated : TodoEvent → Bool
  | created _ _ _ => true
  | retitled _ _ => false

structure Todo where
  todoId : String
  title : String
  content : String
  isCompleted : Bool := false

namespace Todo

/-- `Todo.apply(event)` for a class of events that works on an entity: its argument is missing. -/
def typeError : EntityErr := .other 0

/-- `Todo.apply`, called on the class and on a todo. -/
def apply : EntityImpl Todo TodoEvent where
  create event :=
    match event with
    | .created base title content => .ok { todoId := base.entityId, title := title, content := content }
    | .retitled _ _ => .error typeError
  apply self event :=
    match event with
    -- still a class method: it makes another todo
    | .created base title content =>
      .ok (.copy self { todoId := base.entityId, title := title, content := content })
    | .retitled _ title => .ok (.inPlace { self with title := title })

/-- `Todo.rebuild(events)`: the todo, at the reference that is returned. -/
def rebuild (events : List TodoEvent) : Except EntityErr (Option Todo) :=
  EntityImpl.stateOf (Messages.rebuild apply.entityClass [] events)

end Todo

/-! ### The tables -/

inductive DemoErr
  /-- a unique column has the value already -/
  | integrityError
  | multipleResultsFound
  | keyError (todoId : String)
  | entity (e : EntityErr)
  | row (e : PyErr)
  /-- what an awaited call raised -/
  | raised (id : Nat)

namespace TodoRepository

/-- `add(todo)` -/
def add (todos : List Todo) (todo : Todo) : Except DemoErr (List Todo) :=
  if todo.todoId ∈ todos.map Todo.todoId then .error .integrityError else .ok (todos ++ [todo])

/-- `get(todo_id)` -/
def get (todos : List Todo) (todoId : String) : Except DemoErr (Option Todo) :=
  match todos.filter fun row => row.todoId == todoId with
  | [] => .ok none
  | [row] => .ok (some row)
  | _ => .error .multipleResultsFound

/-- `retitle(todo_id, title)` -/
def retitle (todos : List Todo) (todoId title : String) : List Todo :=
  todos.map fun row => if row.todoId = todoId then { row with title := title } else row

end TodoRepository

/-! ### Commands -/

structure CreateTodo where
  id : String
  title : String
  content : String

structure RenameTodo where
  todoId : String
  title : String

/-- Where a call of `add_new_todo` or `rename_todo` is. -/
inductive Phase
  /-- before `self._repo.add(todo)` -/
  | adding (todo : Todo) (event : TodoEvent)
  /-- before `self._repo.get(command.todo_id)` -/
  | getting (todoId : String) (event : TodoEvent)
  /-- before `self._repo.retitle(todo.todo_id, todo.title)` -/
  | retitling (todo : Todo) (event : TodoEvent)
  /-- before `self._es.add(event)` -/
  | storing (event : TodoEvent)
  /-- before `self._aw.publish(event)` -/
  | publishing (event : TodoEvent)
  | done (r : Except DemoErr (Option String))
  /-- it raised between its two writes -/
  | lost (event : TodoEvent) (e : DemoErr)

/-- What the handler returns: `add_new_todo` the id, `rename_todo` nothing. -/
def TodoEvent.result : TodoEvent → Option String
  | created base _ _ => some base.entityId
  | retitled _ _ => none

/-- `add_new_todo(command)` up to its first `await`; the id and the time of the event are generated. -/
def addNewTodo (command : CreateTodo) (eventId timestamp : String) : Phase :=
  let event : TodoEvent := .created ⟨command.id, eventId, timestamp⟩ command.title command.content
  match Todo.apply.create event with
  | .ok todo => .adding todo event
  | .error e => .done (.error (.entity e))

/-- `rename_todo(command)` up to its first `await` -/
def renameTodo (command : RenameTodo) (eventId timestamp : String) : Phase :=
  .getting command.todoId (.retitled ⟨command.todoId, eventId, timestamp⟩ command.title)

/-- The tables and the calls, and of what events the writes to the todo table were, in order. -/
structure TodoApp where
  todos : List Todo
  events : List (Generated × TodoEvent)
  calls : List Phase
  written : List TodoEvent

inductive TodoAct
  | addNewTodo (command : CreateTodo) (eventId timestamp : String)
  | renameTodo (command : RenameTodo) (eventId timestamp : String)
  /-- a call goes on to its next `await`; `g` is what the database adds to a row of the event table -/
  | go (c : Nat) (g : Generated)
  /-- what a call awaits raises, and has written nothing -/
  | fail (c : Nat) (e : Nat)

namespace TodoApp

def new : TodoApp := ⟨[], [], [], []⟩

/-- Call number `c` is in the phase `p`. -/
def enter (s : TodoApp) (c : Nat) (p : Phase) : TodoApp := { s with calls := s.calls.set c p }

/-- `self._es.add(event)`: the id of an event is unique. -/
def store (s : TodoApp) (c : Nat) (g : Generated) (event : TodoEvent) : TodoApp :=
  if event.eventId ∈ s.events.map fun p => p.2.eventId then s.enter c (.lost event .integrityError)
  else { s.enter c (.publishing event) with events := s.events ++ [(g, event)] }

def step (s : TodoApp) : TodoAct → Option TodoApp
  | .addNewTodo command eventId timestamp =>
    some { s with calls := s.calls ++ [Demo.addNewTodo command eventId timestamp] }
  | .renameTodo command eventId timestamp =>
    some { s with calls := s.calls ++ [Demo.renameTodo command eventId timestamp] }
  | .go c g =>
    match s.calls[c]? with
    | some (.adding todo event) =>
      match TodoRepository.add s.todos todo with
      | .error e => some (s.enter c (.done (.error e)))
      | .ok todos => some { s.enter c (.storing event) with todos := todos, written := s.written ++ [event] }
    | some (.getting todoId event) =>
      match TodoRepository.get s.todos todoId with
      | .error e => some (s.enter c (.done (.error e)))
      | .ok none => some (s.enter c (.done (.error (.keyError todoId))))
      | .ok (some todo) =>
        -- `todo.apply(event)` is a statement of its own
        match Todo.apply.apply todo event with
        | .error e => some (s.enter c (.done (.error (.entity e))))
        | .ok applied => some (s.enter c (.retitling applied.left event))
    | some (.retitling todo event) =>
      some { s.enter c (.storing event) with
        todos := TodoRepository.retitle s.todos todo.todoId todo.title, written := s.written ++ [event] }
    | some (.storing event) => some (s.store c g event)
    | some (.publishing event) => some (s.enter c (.done (.ok event.result)))
    | _ => none
  | .fail c e =>
    match s.calls[c]? with
    | some (.storing event) => some (s.enter c (.lost event (.raised e)))
    | some (.done _) | some (.lost _ _) | none => none
    | some _ => some (s.enter c (.done (.error (.raised e))))

/-- The rows of the event table. -/
def rows (m : EventModel TodoEvent) (s : TodoApp) : List Row := addAll m s.events

end TodoApp

/-! ### Queries -/

/-- `list_events(query)` -/
def listEventsOf (m : EventModel TodoEvent) (rows : List Row) (todoId : String) :
    Except PyErr (List (Dict String Json)) := (listEvents m rows todoId).map (List.map m.normalized)

/-- The todos of the streams, up to the first that cannot be rebuilt. -/
def rebuildStreams : List (List TodoEvent) → Except EntityErr (List (Option Todo))
  | [] => .ok []
  | stream :: streams =>
    match Todo.rebuild stream with
    | .error e => .error e
    | .ok todo =>
      match rebuildStreams streams with
      | .error e => .error e
      | .ok todos => .ok (todo :: todos)

/-- `list_todos(_)` -/
def listTodos (m : EventModel TodoEvent) (rows : List Row) : Except DemoErr (List (Option Todo)) :=
  let streams := allEventStreams m rows
  match rebuildStreams streams.1 with
  | .error e => .error (.entity e)
  | .ok todos =>
    match streams.2 with
    | some e => .error (.row e)
    | none => .ok todos

/-! ### What a step does -/

/-- The steps of the app, each with what it does to the tables. -/
inductive TodoApp.Steps (s : TodoApp) : TodoAct → TodoApp → Prop
  | addNewTodo (command : CreateTodo) (eventId timestamp : String) :
      Steps s (.addNewTodo command eventId timestamp)
        { s with calls := s.calls ++ [Demo.addNewTodo command eventId timestamp] }
  | renameTodo (command : RenameTodo) (eventId timestamp : String) :
      Steps s (.renameTodo command eventId timestamp)
        { s with calls := s.calls ++ [Demo.renameTodo command eventId timestamp] }
  | add {c : Nat} {g : Generated} {todo : Todo} {event : TodoEvent} (hc : s.calls[c]? = some (.adding todo event))
      (hnew : todo.todoId ∉ s.todos.map Todo.todoId) :
      Steps s (.go c g) { s.enter c (.storing event) with
        todos := s.todos ++ [todo], written := s.written ++ [event] }
  | get {c : Nat} {g : Generated} {todoId : String} {event : TodoEvent} {todo : Todo} {applied : Applied Todo}
      (hc : s.calls[c]? = some (.getting todoId event))
      (hget : TodoRepository.get s.todos todoId = .ok (some todo)) (happ : Todo.apply.apply todo event = .ok applied) :
      Steps s (.go c g) (s.enter c (.retitling applied.left event))
  | retitle {c : Nat} {g : Generated} {todo : Todo} {event : TodoEvent}
      (hc : s.calls[c]? = some (.retitling todo event)) :
      Steps s (.go c g) { s.enter c (.storing event) with
        todos := TodoRepository.retitle s.todos todo.todoId todo.title, written := s.written ++ [event] }
  | store {c : Nat} {g : Generated} {event : TodoEvent} (hc : s.calls[c]? = some (.storing event))
      (hnew : event.eventId ∉ s.events.map fun p => p.2.eventId) :
      Steps s (.go c g) { s.enter c (.publishing event) with events := s.events ++ [(g, event)] }
  | lose {c : Nat} {a : TodoAct} {event : TodoEvent} {e : DemoErr} (hc : s.calls[c]? = some (.storing event))
      (ha : (∃ n, a = .fail c n) ∨ ∃ g, a = .go c g ∧ event.eventId ∈ s.events.map fun p => p.2.eventId) :
      Steps s a (s.enter c (.lost event e))
  /-- the call ends before its first write, or after both -/
  | finish {c : Nat} {a : TodoAct} {p : Phase} {r : Except DemoErr (Option String)} (hc : s.calls[c]? = some p)
      (hp : ∀ event, p ≠ .storing event) (hl : ∀ event e, p ≠ .lost event e)
      (ha : (∃ n, a = .fail c n) ∨ ∃ g, a = .go c g) :
      Steps s a (s.enter c (.done r))

theorem TodoApp.steps_of_step {s s' : TodoApp} {a : TodoAct} (h : s.step a = some s') : s.Steps a s' := by
  cases a with
  | addNewTodo command eventId timestamp =>
    cases h
    exact .addNewTodo command eventId timestamp
  | renameTodo command eventId timestamp =>
    cases h
    exact .renameTodo command eventId timestamp
  | go c g =>
    simp only [step] at h
    split at h
    case h_1 todo event hc =>
      rw [TodoRepository.add] at h
      split at h
      · rename_i e he
        cases h
        exact .finish hc (fun _ h => (by cases h)) (fun _ _ h => (by cases h)) (Or.inr ⟨g, rfl⟩)
      · rename_i todos hadd
        cases h
        split at hadd
        · cases hadd
        · rename_i hnew
          cases hadd
          exact .add hc hnew
    case h_2 todoId event hc =>
      split at h
      · cases h
        exact .finish hc (fun _ h => (by cases h)) (fun _ _ h => (by cases h)) (Or.inr ⟨g, rfl⟩)
      · cases h
        exact .finish hc (fun _ h => (by cases h)) (fun _ _ h => (by cases h)) (Or.inr ⟨g, rfl⟩)
      · rename_i todo hget
        split at h
        · cases h
          exact .finish hc (fun _ h => (by cases h)) (fun _ _ h => (by cases h)) (Or.inr ⟨g, rfl⟩)
        · rename_i applied happ
          cases h
          exact .get hc hget happ
    case h_3 todo event hc =>
      cases h
      exact .retitle hc
    case h_4 event hc =>
      rw [TodoApp.store] at h
      split at h
      · rename_i hmem
        cases h
        exact .lose hc (Or.inr ⟨g, rfl, hmem⟩)
      · rename_i hnew
        cases h
        exact .store hc hnew
    case h_5 event hc =>
      cases h
      exact .finish hc (fun _ h => (by cases h)) (fun _ _ h => (by cases h)) (Or.inr ⟨g, rfl⟩)
    case h_6 => cases h
  | fail c e =>
    simp only [step] at h
    split at h
    case h_1 event hc =>
      cases h
      exact .lose hc (Or.inl ⟨e, rfl⟩)
    case h_2 | h_3 | h_4 => cases h
    case h_5 p hs hd hl hc =>
      cases h
      refine .finish hc (fun event h => hs event ?_) (fun event e h => hl event e ?_) (Or.inl ⟨e, rfl⟩)
      · rw [h]
      · rw [h]

end Anywise.Demo
