import Anywise.Messages.EventStore

/-!
# What the event store streams

Two readers of the event table.  `all_event_streams` goes through all events with one group buffered; the empty string
stands for "no group yet", so the events of an entity with this id are never yielded (`streams_cut_iff`).
`event_stream` joins its two conditions with the `and` of Python, which keeps the first of them only, so it ignores
the version (`event_stream_iff`).
-/

namespace Anywise.Messages

/-! ### The loop of `all_event_streams` -/

section Loop

variable {E : Type} {entityId : E → String}

/-- The variables of the loop. -/
structure LoopState (E : Type) where
  grouped : Dict String (List E)
  currentId : String

/-- The body of the loop: what is yielded, and the variables afterwards. -/
def loopBody (entityId : E → String) (s : LoopState E) (e : E) : List (List E) × LoopState E :=
  if s.currentId ≠ "" ∧ s.currentId ≠ entityId e then
    ([s.grouped.getD s.currentId], ⟨(s.grouped.erase s.currentId).extend (entityId e) [e], entityId e⟩)
  else ([], ⟨s.grouped.extend (entityId e) [e], entityId e⟩)

/-- The variables after the events `read`. -/
def loopState (entityId : E → String) (read : List E) : LoopState E :=
  read.foldl (fun s e => (loopBody entityId s e).2) ⟨.empty, ""⟩

theorem streamLoop_body (entityId : E → String) (s : LoopState E) (e : E) (events : List (Except PyErr E)) :
    streamLoop entityId s.grouped s.currentId (.ok e :: events) =
      ((loopBody entityId s e).1 ++
          (streamLoop entityId (loopBody entityId s e).2.grouped (loopBody entityId s e).2.currentId events).1,
        (streamLoop entityId (loopBody entityId s e).2.grouped (loopBody entityId s e).2.currentId events).2) := by
  unfold loopBody
  rw [streamLoop]
  split <;> rfl

/-- When the events `read` have been read the loop goes on with these variables. -/
theorem streamLoop_read (entityId : E → String) (read : List E) (events : List (Except PyErr E)) :
    ∃ yielded, streamLoop entityId .empty "" (read.map .ok ++ events) =
      (yielded ++ (streamLoop entityId (loopState entityId read).grouped (loopState entityId read).currentId events).1,
        (streamLoop entityId (loopState entityId read).grouped (loopState entityId read).currentId events).2) := by
  induction read using List.reverseRecOn generalizing events with
  | nil => exact ⟨[], rfl⟩
  | append_singleton read e ih =>
    obtain ⟨yielded, h⟩ := ih (.ok e :: events)
    have hstate : loopState entityId (read ++ [e]) = (loopBody entityId (loopState entityId read) e).2 :=
      List.foldl_append
    refine ⟨yielded ++ (loopBody entityId (loopState entityId read) e).1, ?_⟩
    rw [List.map_append, List.map_singleton, List.append_assoc, List.singleton_append, h, streamLoop_body, hstate,
      List.append_assoc]

/-- Under each key are events with this id. -/
def Filing (entityId : E → String) (grouped : Dict String (List E)) : Prop :=
  ∀ i, ∀ e ∈ grouped.getD i, entityId e = i

theorem Filing.loopBody {s : LoopState E} (h : Filing entityId s.grouped) (e : E) :
    Filing entityId (loopBody entityId s e).2.grouped := by
  have hextend : ∀ d : Dict String (List E), Filing entityId d → Filing entityId (d.extend (entityId e) [e]) := by
    intro d hd i x hx
    rw [Dict.getD_extend] at hx
    split at hx
    · rename_i hi
      rcases List.mem_append.1 hx with hx | hx
      · exact hd i x hx
      · rw [List.mem_singleton.1 hx, hi]
    · exact hd i x hx
  unfold Messages.loopBody
  split
  · refine hextend _ fun i x hx => ?_
    rw [Dict.getD_erase] at hx
    split at hx
    · cases hx
    · exact h i x hx
  · exact hextend _ h

/-- No yielded event has the empty id. -/
theorem entityId_yielded {s : LoopState E} (h : Filing entityId s.grouped) (events : List E) :
    ∀ l ∈ (streamLoop entityId s.grouped s.currentId (events.map .ok)).1, ∀ e ∈ l, entityId e ≠ "" := by
  -- only the group of a current id that is not empty is yielded
  have hgroup : s.currentId ≠ "" → ∀ e ∈ s.grouped.getD s.currentId, entityId e ≠ "" := by
    intro hcur e he
    rw [h s.currentId e he]
    exact hcur
  induction events generalizing s with
  | nil =>
    intro l hl
    rw [List.map_nil, streamLoop] at hl
    split at hl
    · rename_i hcur
      rw [List.mem_singleton.1 hl]
      exact hgroup hcur
    · cases hl
  | cons e events ih =>
    intro l hl
    rw [List.map_cons, streamLoop_body] at hl
    have hfiling := h.loopBody e
    rcases List.mem_append.1 hl with hl | hl
    · unfold loopBody at hl
      split at hl
      · rename_i hcur
        rw [List.mem_singleton.1 hl]
        exact hgroup hcur.1
      · cases hl
    · exact ih hfiling (fun hcur x hx => by rw [hfiling _ x hx]; exact hcur) l hl

/-- The group of the current id is the only one. -/
def OneGroup (s : LoopState E) : Prop := ∀ i, (s.grouped.get? i).isSome → i = s.currentId

/-- While no id is empty, one group at most is buffered. -/
theorem oneGroup_loopState {read : List E} (h : ∀ e ∈ read, entityId e ≠ "") :
    OneGroup (loopState entityId read) ∧
      ((loopState entityId read).currentId = "" → (loopState entityId read).grouped = .empty) := by
  induction read using List.reverseRecOn with
  | nil => exact ⟨fun i hi => by simp [loopState] at hi, fun _ => rfl⟩
  | append_singleton read e ih =>
    obtain ⟨hone, hempty⟩ := ih fun x hx => h x (by simp [hx])
    have hstate : loopState entityId (read ++ [e]) = (loopBody entityId (loopState entityId read) e).2 :=
      List.foldl_append
    have hcur : (loopBody entityId (loopState entityId read) e).2.currentId = entityId e := by
      unfold loopBody
      split <;> rfl
    rw [hstate]
    refine ⟨fun i hi => ?_, fun hno => ?_⟩
    · rw [hcur]
      unfold loopBody at hi
      split at hi
      · -- the old group has been yielded and deleted
        rw [Dict.extend, Dict.get?_set] at hi
        split at hi
        · rename_i heq
          exact heq.symm
        · rw [Dict.get?_erase] at hi
          split at hi
          · cases hi
          · rename_i hne
            exact absurd (hone i hi).symm hne
      · rename_i hsame
        rw [Dict.extend, Dict.get?_set] at hi
        split at hi
        · rename_i heq
          exact heq.symm
        · have hid := hone i hi
          by_cases hcurrent : (loopState entityId read).currentId = ""
          · rw [hempty hcurrent] at hi
            cases hi
          · by_contra hne
            exact hsame ⟨hcurrent, fun heq => hne (hid.trans heq)⟩
    · rw [hcur] at hno
      exact absurd hno (h e (by simp))

end Loop

section

variable {E : Type}

/-- For every table whose rows are decoded to `events`: the lists yielded are the events cut where the entity id
changes, no exception is raised and never more than one group is buffered when an event is read, exactly when no
entity id is empty. -/
theorem streams_cut_iff (m : EventModel E) (rows : List Row) (events : List E)
    (h : listAllEvents m rows = events.map .ok) :
    ((allEventStreams m rows).2 = none ∧ Grouping.CutAt m.entityId events (allEventStreams m rows).1 ∧
        ∀ read, read <+: events → (loopState m.entityId read).grouped.items.length ≤ 1) ↔
      ∀ e ∈ events, m.entityId e ≠ "" := by
  have hstreams : allEventStreams m rows = streamLoop m.entityId .empty "" (events.map .ok) := by
    rw [allEventStreams, h]
  rw [hstreams]
  constructor
  · rintro ⟨-, hcut, -⟩ e he
    rw [← hcut.flatten] at he
    obtain ⟨l, hl, he⟩ := List.mem_flatten.1 he
    have hfiling : Filing m.entityId (Dict.empty : Dict String (List E)) := fun i x hx => by cases hx
    exact entityId_yielded (s := ⟨.empty, ""⟩) hfiling events l hl e he
  · intro hids
    rw [streamLoop_start hids]
    refine ⟨rfl, Grouping.runs_cutAt m.entityId events, fun read hread => ?_⟩
    have hread' : ∀ e ∈ read, m.entityId e ≠ "" := fun e he => hids e (hread.subset he)
    exact Dict.length_items_le_one (oneGroup_loopState hread').1

/-! ### The conditions of `event_stream` -/

/-- `EventTable.column == value`, an expression of the query builder. -/
structure Comparison where
  column : String
  value : String

/-- The rows it is true of; comparing `NULL` is not. -/
def Comparison.holds (c : Comparison) (row : Row) : Bool :=
  match row.get? c.column with
  | some (.json (.str s)) => s == c.value
  | _ => false

/-- `bool(column == value)`: whether the two are the same object, and a column is no string. -/
def Comparison.toBool (_ : Comparison) : Bool := false

/-- `e₁ and e₂` -/
def Comparison.and (e₁ e₂ : Comparison) : Comparison := if e₁.toBool then e₂ else e₁

/-- `event_stream(entity_id, version)` -/
def eventStream (m : EventModel E) (rows : List Row) (entityId version : String) :
    Except PyErr (Option (List E)) :=
  match rows.filter (Comparison.and ⟨"entity_id", entityId⟩ ⟨"version", version⟩).holds with
  | [] => .ok none
  | mapping => (decodeRows m mapping).map some

/-- The row has the entity id, and the version. -/
def hasVersion (entityId version : String) (row : Row) : Bool :=
  hasEntityId entityId row && (⟨"version", version⟩ : Comparison).holds row

/-- The events of the rows with this entity id and version are returned, in the order of the table, and `None` if
there is none. -/
def StreamsVersion (m : EventModel E) (rows : List Row) (entityId version : String) : Prop :=
  ∃ events, decodeRows m (rows.filter (hasVersion entityId version)) = .ok events ∧
    eventStream m rows entityId version = .ok (if events.isEmpty then none else some events)

theorem length_decodeRows {m : EventModel E} {rows : List Row} {events : List E}
    (h : decodeRows m rows = .ok events) : events.length = rows.length := by
  induction rows generalizing events with
  | nil =>
    cases h
    rfl
  | cons row rows ih =>
    unfold decodeRows at h
    split at h
    · cases h
    · split at h
      · cases h
      · rename_i rest hrest
        cases h
        rw [List.length_cons, List.length_cons, ih hrest]

/-- The condition that reaches the database is the first one. -/
theorem eventStream_eq (m : EventModel E) (rows : List Row) (entityId version : String) :
    eventStream m rows entityId version =
      match rows.filter (hasEntityId entityId) with
      | [] => .ok none
      | mapping => (decodeRows m mapping).map some := rfl

/-- The events of all rows of the entity are returned. -/
theorem eventStream_eq_ok {m : EventModel E} {rows : List Row} {entityId version : String} {r : Option (List E)} :
    eventStream m rows entityId version = .ok r ↔
      ∃ events, decodeRows m (rows.filter (hasEntityId entityId)) = .ok events ∧
        r = if events.isEmpty then none else some events := by
  rw [eventStream_eq]
  split
  · rename_i hnil
    rw [hnil]
    constructor
    · intro h
      cases h
      exact ⟨[], rfl, rfl⟩
    · rintro ⟨events, hdec, rfl⟩
      cases hdec
      rfl
  · rename_i hne
    have hsome : ∀ events, decodeRows m (rows.filter (hasEntityId entityId)) = .ok events → events ≠ [] := by
      rintro events hdec rfl
      exact hne (List.length_eq_zero_iff.1 (length_decodeRows hdec).symm)
    constructor
    · intro h
      cases hdec : decodeRows m (rows.filter (hasEntityId entityId)) with
      | error e =>
        rw [hdec] at h
        cases h
      | ok events =>
        rw [hdec] at h
        cases h
        exact ⟨events, rfl, (if_neg (by simpa using hsome events hdec)).symm⟩
    · rintro ⟨events, hdec, rfl⟩
      rw [hdec, if_neg (by simpa using hsome events hdec)]
      rfl

/-- The list is returned or, when there is nothing in it, `None`. -/
private theorem returned_inj {as bs : List E}
    (h : (if as.isEmpty then none else some as) = if bs.isEmpty then none else some bs) : as = bs := by
  cases as with
  | nil =>
    cases bs with
    | nil => rfl
    | cons b bs => cases h
  | cons a as =>
    cases bs with
    | nil => cases h
    | cons b bs => exact Option.some.inj h

/-- For every table, entity id and version: `event_stream` returns what it should exactly when all rows of the entity
have this version (and are decoded). -/
theorem event_stream_iff (m : EventModel E) (rows : List Row) (entityId version : String) :
    StreamsVersion m rows entityId version ↔
      (∀ row ∈ rows, hasEntityId entityId row = true → hasVersion entityId version row = true) ∧
        ∃ events, decodeRows m (rows.filter (hasVersion entityId version)) = .ok events := by
  have hsub : rows.filter (hasVersion entityId version) =
      (rows.filter (hasEntityId entityId)).filter (hasVersion entityId version) := by
    rw [List.filter_filter]
    refine List.filter_congr fun row _ => ?_
    unfold hasVersion
    cases hasEntityId entityId row <;> simp
  constructor
  · rintro ⟨events, hdec, hstream⟩
    refine ⟨?_, events, hdec⟩
    obtain ⟨all, hall, heq⟩ := eventStream_eq_ok.1 hstream
    obtain rfl := returned_inj heq
    -- as many rows of the entity as rows with the version
    have hlen : ((rows.filter (hasEntityId entityId)).filter (hasVersion entityId version)).length =
        (rows.filter (hasEntityId entityId)).length := by
      rw [← hsub, ← length_decodeRows hdec, length_decodeRows hall]
    intro row hrow hid
    exact List.length_filter_eq_length_iff.1 hlen row (List.mem_filter.2 ⟨hrow, hid⟩)
  · rintro ⟨hversion, events, hdec⟩
    refine ⟨events, hdec, eventStream_eq_ok.2 ⟨events, ?_, rfl⟩⟩
    have hsame : rows.filter (hasVersion entityId version) = rows.filter (hasEntityId entityId) := by
      rw [hsub]
      refine List.filter_eq_self.2 fun row hrow => ?_
      exact hversion row (List.mem_of_mem_filter hrow) (List.mem_filter.1 hrow).2
    rw [← hsame]
    exact hdec

end

/-! ### Todos without an id, and in two versions -/

namespace TodoApp

/-- The event of the todo with the empty id is never yielded. -/
theorem empty_id_lost :
    listAllEvents todoEvents (addAll todoEvents (history [("", "1"), ("a", "2")])) =
        [todoEvent "" "1", todoEvent "a" "2"].map .ok ∧
      allEventStreams todoEvents (addAll todoEvents (history [("", "1"), ("a", "2")])) =
        ([[todoEvent "a" "2"]], none) ∧
      ¬ Grouping.CutAt todoEvents.entityId [todoEvent "" "1", todoEvent "a" "2"]
        (allEventStreams todoEvents (addAll todoEvents (history [("", "1"), ("a", "2")]))).1 := by
  have hlist : listAllEvents todoEvents (addAll todoEvents (history [("", "1"), ("a", "2")])) =
      [todoEvent "" "1", todoEvent "a" "2"].map .ok := listAllEvents_eq (decodes_history _)
  have hstreams : allEventStreams todoEvents (addAll todoEvents (history [("", "1"), ("a", "2")])) =
      ([[todoEvent "a" "2"]], none) := by
    rw [allEventStreams, hlist]
    simp [streamLoop, entityId_todoEvent, Dict.getD_extend]
  refine ⟨hlist, hstreams, fun h => ?_⟩
  have hflat := congrArg List.length h.flatten
  rw [hstreams] at hflat
  simp at hflat

/-- With ids, every event is yielded. -/
theorem ids_cut :
    Grouping.CutAt todoEvents.entityId [todoEvent "a" "1", todoEvent "b" "2", todoEvent "a" "3"]
      (allEventStreams todoEvents (addAll todoEvents (history [("a", "1"), ("b", "2"), ("a", "3")]))).1 :=
  ((streams_cut_iff todoEvents _ _ (listAllEvents_eq (decodes_history [("a", "1"), ("b", "2"), ("a", "3")]))).2
    (by simp [history, entityId_todoEvent])).2.1

/-- A row of todo `a` that an application of the given version has stored. -/
def rowOfVersion (version eventId : String) : Row :=
  EventTable.row ⟨1, 0, 0⟩ ((todoEvents.normalized (todoEvent "a" eventId)).set "version" (.str version))

/-- For version 1 of the todo both events are returned, also that of version 2. -/
theorem other_version_streamed :
    (eventStream todoEvents [rowOfVersion "1" "1", rowOfVersion "2" "2"] "a" "1").toOption.map
        (Option.map List.length) = some (some 2) ∧
      ([rowOfVersion "1" "1", rowOfVersion "2" "2"].filter (hasVersion "a" "1")).length = 1 ∧
      ¬ StreamsVersion todoEvents [rowOfVersion "1" "1", rowOfVersion "2" "2"] "a" "1" := by
  have hboth : (eventStream todoEvents [rowOfVersion "1" "1", rowOfVersion "2" "2"] "a" "1").toOption.map
      (Option.map List.length) = some (some 2) := by
    decide +kernel
  have hone : ([rowOfVersion "1" "1", rowOfVersion "2" "2"].filter (hasVersion "a" "1")).length = 1 := by
    decide +kernel
  refine ⟨hboth, hone, ?_⟩
  rintro ⟨events, hdec, hstream⟩
  have hlen := length_decodeRows hdec
  rw [hone] at hlen
  rw [hstream] at hboth
  cases events with
  | nil => cases hlen
  | cons e es =>
    have htwo : (e :: es).length = 2 := Option.some.inj (Option.some.inj hboth)
    omega

end TodoApp

end Anywise.Messages
