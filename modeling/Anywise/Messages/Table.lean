import Anywise.Messages.Model

/-!
# Events as table rows

A row of the event table has a column for each key of the normalized event, and three more that the database fills
in.  Reading it back passes the columns that are not reserved, and the fields of the body, to the event class.
`__normalized__` takes the fields of the body from the wrong end of the field list, so an event comes back exactly
when its class has no fields of its own and the table takes its ids (`round_trip_iff`).
-/

namespace Anywise.Messages

/-! ### Rows -/

/-- Columns of the event table that are no fields of an event. -/
def TABLE_RESERVED_VARS : List String :=
  ["id", "version", "source", "event_type", "event_body", "gmt_created", "gmt_modified"]

/-- What a row holds. -/
inductive Cell
  | json (v : Json)
  | int (n : Nat)
  | datetime (t : Nat)

/-- `row_mapping`: the columns of a row by name. -/
abbrev Row := Dict String Cell

/-- What the database adds to an inserted row. -/
structure Generated where
  id : Nat
  gmtCreated : Nat
  gmtModified : Nat

namespace EventTable

/-- The columns of `EventTable` that are inserted. -/
def columns : List String :=
  ["event_id", "event_type", "event_body", "source", "entity_id", "timestamp", "version"]

/-- The columns with `nullable=False`. -/
def notNull : List String := ["event_id", "source", "entity_id"]

/-- The column can hold the value: `None` is `NULL`, and of the columns only `event_body` takes lists and dicts. -/
def fits (column : String) : Json → Bool
  | .null => column ∉ notNull
  | .arr _ | .obj _ => column = "event_body"
  | .bool _ | .num _ _ | .str _ => true

/-- The value for a column; one that is not given is `None`. -/
def value (mapping : Dict String Json) (column : String) : Json := (mapping.get? column).getD .null

/-- The row that the values make. -/
def row (g : Generated) (mapping : Dict String Json) : Row :=
  Dict.empty.update
    ([("id", .int g.id), ("gmt_modified", .datetime g.gmtModified), ("gmt_created", .datetime g.gmtCreated)] ++
      columns.map fun c => (c, .json (value mapping c)))

/-- `insert(EventTable).values(**mapping)`: the database raises if a column cannot hold its value. -/
def insert (g : Generated) (mapping : Dict String Json) : Except PyErr Row :=
  if columns.all fun c => fits c (value mapping c) then .ok (row g mapping) else .error .dbapiError

/-- The string in a column of a row. -/
def text (row : Row) (column : String) : Option String :=
  match row.get? column with
  | some (.json (.str s)) => some s
  | _ => none

/-- A row of the table has the event id of the new one, which `unique=True` forbids. -/
def hasEventId (rows : List Row) (row : Row) : Bool :=
  match text row "event_id" with
  | some eventId => rows.any fun r => text r "event_id" = some eventId
  | none => false

end EventTable

/-- `event_to_mapping(event)` -/
def eventToMapping {t : EventTypes} (event : Event t) : Dict String Json := event.normalized

/-- The value of a field among the keyword arguments, or its default. -/
def argument (default : String → Option Json) (kwargs : List (String × Cell)) (field : String) : Option Json :=
  match Dict.lookup field kwargs with
  | some (.json v) => some v
  | some _ => none
  | none => default field

/-- `event_cls(**kwargs)`: a keyword that is given twice raises `TypeError`, a field without a value that it takes
`ValidationError`; keywords that are no fields are ignored. -/
def construct (t : EventTypes) (cls : Cls) (default : String → Option Json) (kwargs : List (String × Cell)) :
    Except PyErr (Event t) :=
  if (kwargs.map Prod.fst).Nodup then
    if (t.classes cls).fields.all fun f => (argument default kwargs f).isSome then
      .ok (.ofFields t cls fun f => (argument default kwargs f).getD .null)
    else .error .validationError
  else .error .typeError

/-- `mapping_to_event(row_mapping)`: the registry afterwards, and the event. -/
def mappingToEvent (t : EventTypes) (ord : SetOrder) (registry : Dict String Cls) (default : String → Option Json)
    (rowMapping : Row) : Dict String Cls × Except PyErr (Event t) :=
  match rowMapping.get? "event_type" with
  | some (.json (.str typeId)) =>
    match getEventCls t ord registry typeId pydanticEvent with
    | (registry, .error e) => (registry, .error e)
    | (registry, .ok eventCls) =>
      let mapping := rowMapping.items.filter fun p => p.1 ∉ TABLE_RESERVED_VARS
      match rowMapping.get? "event_body" with
      | some (.json (.obj body)) =>
        (registry, construct t eventCls default (mapping ++ body.map fun p => (p.1, .json p.2)))
      | _ => (registry, .error .typeError)
  | _ => (registry, .error .attributeError)

/-! ### The fields of an event class -/

namespace EventClass

theorem foldl_addField (fields declared : List String) :
    ∃ own, declared.foldl addField fields = fields ++ own ∧ ∀ f ∈ own, f ∉ fields := by
  induction declared generalizing fields with
  | nil => exact ⟨[], by simp, by simp⟩
  | cons d declared ih =>
    rw [List.foldl_cons]
    by_cases hd : d ∈ fields
    · -- declared again: nothing is added
      rw [addField, if_pos hd]
      exact ih fields
    · rw [addField, if_neg hd]
      obtain ⟨own, heq, hno⟩ := ih (fields ++ [d])
      refine ⟨d :: own, by simp [heq], ?_⟩
      intro f hf
      rcases List.mem_cons.1 hf with rfl | hf
      · exact hd
      · exact fun hm => hno f hf (by simp [hm])

/-- The fields of an event class begin with those of the base. -/
theorem fields_eq (c : EventClass) : c.fields = BASE_FIELDS ++ c.ownFields := by
  obtain ⟨own, heq, hno⟩ := foldl_addField BASE_FIELDS c.levels.flatten
  have hfields : c.fields = BASE_FIELDS ++ own := heq
  rw [ownFields, hfields, List.filter_append]
  have hbase : BASE_FIELDS.filter (fun f => decide (f ∉ BASE_FIELDS)) = [] := by decide
  have hown : own.filter (fun f => decide (f ∉ BASE_FIELDS)) = own :=
    List.filter_eq_self.2 fun f hf => decide_eq_true (hno f hf)
  rw [hbase, hown, List.nil_append]

end EventClass

/-! ### The row of an event -/

/-- The columns that are passed to the event class. -/
theorem filter_row (g : Generated) (mapping : Dict String Json) :
    (EventTable.row g mapping).items.filter (fun p => decide (p.1 ∉ TABLE_RESERVED_VARS)) =
      ["event_id", "entity_id", "timestamp"].map fun c => (c, .json ((mapping.get? c).getD .null)) := by
  unfold EventTable.row EventTable.value
  rw [Dict.items_update (by simp [Dict.empty, EventTable.columns])]
  simp [Dict.empty, EventTable.columns, TABLE_RESERVED_VARS]

theorem get?_row (g : Generated) (mapping : Dict String Json) {c : String} (hc : c ∈ EventTable.columns) :
    (EventTable.row g mapping).get? c = some (.json ((mapping.get? c).getD .null)) := by
  refine Dict.mem_items.1 ?_
  unfold EventTable.row EventTable.value
  rw [Dict.items_update (by simp [Dict.empty, EventTable.columns])]
  exact List.mem_append_right _ (List.mem_append_right _ (List.mem_map.2 ⟨c, hc, rfl⟩))

namespace EventTable

/-- The row is stored if every column can hold its value. -/
theorem insert_eq_ok {g : Generated} {mapping : Dict String Json} {r : Row} :
    insert g mapping = .ok r ↔ (∀ c ∈ columns, fits c (value mapping c) = true) ∧ r = row g mapping := by
  unfold insert
  constructor
  · intro h
    split at h
    · rename_i hfits
      exact ⟨List.all_eq_true.1 hfits, (Except.ok.inj h).symm⟩
    · cases h
  · rintro ⟨hfits, rfl⟩
    rw [if_pos (List.all_eq_true.2 hfits)]

/-- With the event's own columns filled in by the library, it depends on the base fields only. -/
theorem fits_columns {mapping : Dict String Json} {type version source : String} {body : List (String × Json)}
    (htype : mapping.get? "event_type" = some (.str type)) (hversion : mapping.get? "version" = some (.str version))
    (hsource : mapping.get? "source" = some (.str source)) (hbody : mapping.get? "event_body" = some (.obj body)) :
    (∀ c ∈ columns, fits c (value mapping c) = true) ↔ ∀ f ∈ BASE_FIELDS, fits f (value mapping f) = true := by
  have hfilled : ∀ c ∈ ["event_type", "version", "source", "event_body"], fits c (value mapping c) = true := by
    simp [value, htype, hversion, hsource, hbody, fits]
  constructor
  · intro h f hf
    exact h f (by revert hf f; decide)
  · intro h c hc
    by_cases hbase : c ∈ BASE_FIELDS
    · exact h c hbase
    · exact hfilled c (by revert hbase hc c; decide)

end EventTable

namespace Event

variable {t : EventTypes}

theorem get?_ofFields (cls : Cls) (value : String → Json) {f : String} (hf : f ∈ (t.classes cls).fields) :
    (ofFields t cls value).fields.get? f = some (value f) := by
  have hsome := ((ofFields t cls value).complete f).2 hf
  obtain ⟨v, hv⟩ := Option.isSome_iff_exists.1 hsome
  have hmem : (f, v) ∈ (t.classes cls).fields.map fun f => (f, value f) := by
    have hlast : Dict.lastOf f ((t.classes cls).fields.map fun f => (f, value f)) = some v := by
      simpa [ofFields, Dict.get?_update] using hv
    exact Dict.mem_of_lastOf hlast
  obtain ⟨f', -, heq⟩ := List.mem_map.1 hmem
  obtain ⟨rfl, rfl⟩ := Prod.mk.inj heq
  exact hv

theorem lastOf_attrs (e : Event t) {names : List String} {f : String} (hf : f ∈ names) :
    Dict.lastOf f (e.attrs names) = e.fields.get? f := e.fields.lastOf_pick hf

/-- The base fields of the normalized event are those of the event. -/
theorem get?_normalized (e : Event t) {f : String} (hf : f ∈ BASE_FIELDS) :
    e.normalized.get? f = e.fields.get? f := by
  have hattrs := e.lastOf_attrs hf
  simp only [BASE_FIELDS, List.mem_cons, List.not_mem_nil, or_false] at hf
  unfold normalized
  rcases hf with rfl | rfl | rfl <;> simp [Dict.get?_set, Dict.get?_update, hattrs]

/-! ### The round trip -/

/-- The body holds the fields that `PydanticEvent` does not have, and nothing else. -/
def BodyExact (e : Event t) : Prop :=
  ∃ kvs, (eventToMapping e).get? "event_body" = some (.obj kvs) ∧
    ∀ f v, (f, v) ∈ kvs ↔ f ∈ (t.classes e.cls).ownFields ∧ e.fields.get? f = some v

/-- `e'` is of the class of `e` and equal to it in every field. -/
def SameAs (e e' : Event t) : Prop := e'.cls = e.cls ∧ ∀ f, e'.fields.get? f = e.fields.get? f

theorem get?_event_body (e : Event t) :
    e.normalized.get? "event_body" =
      some (.obj (e.attrs ((t.classes e.cls).fields.take (t.classes e.cls).ownFields.length))) := by
  have hlen : (t.classes e.cls).fields.length - BASE_FIELDS.length = (t.classes e.cls).ownFields.length := by
    rw [EventClass.fields_eq, List.length_append, Nat.add_sub_cancel_left]
  simp [normalized, Dict.get?_set, hlen]

/-- With own fields, the body begins with the first field of the base. -/
theorem entity_id_mem_body (e : Event t) (hown : (t.classes e.cls).ownFields ≠ []) :
    ∃ v, ("entity_id", v) ∈ e.attrs ((t.classes e.cls).fields.take (t.classes e.cls).ownFields.length) := by
  obtain ⟨o, own, ho⟩ := List.exists_cons_of_ne_nil hown
  have hmem : "entity_id" ∈ (t.classes e.cls).fields.take (t.classes e.cls).ownFields.length := by
    rw [EventClass.fields_eq, ho, List.length_cons, BASE_FIELDS, List.cons_append, List.take_succ_cons]
    exact List.mem_cons_self
  obtain ⟨v, hv⟩ := Option.isSome_iff_exists.1 ((e.complete "entity_id").2 (List.mem_of_mem_take hmem))
  exact ⟨v, List.mem_filterMap.2 ⟨_, hmem, by rw [hv]; rfl⟩⟩

theorem bodyExact_iff (e : Event t) : e.BodyExact ↔ (t.classes e.cls).ownFields = [] := by
  constructor
  · rintro ⟨kvs, hkvs, hmem⟩
    by_contra hown
    obtain ⟨v, hv⟩ := e.entity_id_mem_body hown
    rw [eventToMapping, get?_event_body] at hkvs
    cases hkvs
    have hfield := ((hmem _ _).1 hv).1
    simp [EventClass.ownFields, BASE_FIELDS] at hfield
  · intro hown
    refine ⟨_, e.get?_event_body, fun f v => ?_⟩
    simp [hown, attrs]

/-- The columns of its row that are passed to the class of the event. -/
def baseArguments (e : Event t) : List (String × Cell) :=
  ["event_id", "entity_id", "timestamp"].map fun f => (f, .json ((e.fields.get? f).getD .null))

/-- The table takes the event: its event id and its entity id hold values, and no base field a list or a dict. -/
def Fits (e : Event t) : Prop := ∀ f ∈ BASE_FIELDS, EventTable.fits f ((e.fields.get? f).getD .null) = true

theorem fits_iff (e : Event t) :
    e.Fits ↔ ∀ c ∈ EventTable.columns, EventTable.fits c (EventTable.value e.normalized c) = true := by
  have hversion : e.normalized.get? "version" = some (.str (t.classes e.cls).version) := by
    simp [normalized, Dict.get?_set]
  have hsource : e.normalized.get? "source" = some (.str (t.classes e.cls).source) := by
    simp [normalized, Dict.get?_set]
  rw [EventTable.fits_columns e.get?_event_type hversion hsource e.get?_event_body]
  refine forall₂_congr fun f hf => ?_
  rw [EventTable.value, e.get?_normalized hf]

theorem insert_eq_ok {e : Event t} {g : Generated} {row : Row} :
    EventTable.insert g (eventToMapping e) = .ok row ↔ e.Fits ∧ row = EventTable.row g (eventToMapping e) := by
  rw [EventTable.insert_eq_ok, eventToMapping, e.fits_iff]

/-- Reading the row of an event makes an instance of its class from the base fields and the body. -/
theorem mappingToEvent_row (e : Event t) (ord : SetOrder) (registry : Dict String Cls)
    (default : String → Option Json) (g : Generated)
    (hres : (getEventCls t ord registry (t.classes e.cls).deafultTypeid pydanticEvent).2 = .ok e.cls) :
    (mappingToEvent t ord registry default (EventTable.row g (eventToMapping e))).2 =
      construct t e.cls default (e.baseArguments ++
        (e.attrs ((t.classes e.cls).fields.take (t.classes e.cls).ownFields.length)).map
          fun p => (p.1, .json p.2)) := by
  unfold mappingToEvent
  rw [get?_row g _ (by decide), eventToMapping, get?_event_type]
  simp only [Option.getD_some]
  rcases hget : getEventCls t ord registry (t.classes e.cls).deafultTypeid pydanticEvent with ⟨registry', res⟩
  rw [hget] at hres
  simp only at hres
  subst hres
  simp only [get?_row g _ (show "event_body" ∈ EventTable.columns by decide), get?_event_body, Option.getD_some,
    filter_row]
  simp only [List.map_cons, List.map_nil, e.get?_normalized (show "event_id" ∈ BASE_FIELDS by decide),
    e.get?_normalized (show "entity_id" ∈ BASE_FIELDS by decide),
    e.get?_normalized (show "timestamp" ∈ BASE_FIELDS by decide), baseArguments]

theorem argument_base (e : Event t) (default : String → Option Json) {f : String} (hf : f ∈ BASE_FIELDS)
    (hfield : f ∈ (t.classes e.cls).fields) : argument default e.baseArguments f = e.fields.get? f := by
  obtain ⟨v, hv⟩ := Option.isSome_iff_exists.1 ((e.complete f).2 hfield)
  simp only [BASE_FIELDS, List.mem_cons, List.not_mem_nil, or_false] at hf
  unfold baseArguments
  rcases hf with rfl | rfl | rfl <;> simp [argument, Dict.lookup, hv]

theorem ofFields_congr (cls : Cls) {value value' : String → Json}
    (h : ∀ f ∈ (t.classes cls).fields, value f = value' f) : ofFields t cls value = ofFields t cls value' := by
  have hmap : ((t.classes cls).fields.map fun f => (f, value f)) =
      (t.classes cls).fields.map fun f => (f, value' f) :=
    List.map_congr_left fun f hf => by rw [h f hf]
  simp only [ofFields, hmap]

/-- The instance with the same values is the same event. -/
theorem sameAs_ofFields (e : Event t) : e.SameAs (ofFields t e.cls fun f => (e.fields.get? f).getD .null) := by
  refine ⟨rfl, fun f => ?_⟩
  by_cases hf : f ∈ (t.classes e.cls).fields
  · obtain ⟨v, hv⟩ := Option.isSome_iff_exists.1 ((e.complete f).2 hf)
    rw [get?_ofFields _ _ hf, hv, Option.getD_some]
  · have hno : ∀ e' : Event t, e'.cls = e.cls → e'.fields.get? f = none := by
      intro e' he
      rw [← Option.not_isSome_iff_eq_none, e'.complete, he]
      exact hf
    rw [hno e rfl]
    exact hno (ofFields t e.cls _) rfl

/-- The base fields make an instance with the same values when there are no others. -/
theorem construct_base (e : Event t) (default : String → Option Json) (hown : (t.classes e.cls).ownFields = []) :
    construct t e.cls default e.baseArguments = .ok (ofFields t e.cls fun f => (e.fields.get? f).getD .null) := by
  have hfields : (t.classes e.cls).fields = BASE_FIELDS := by rw [EventClass.fields_eq, hown, List.append_nil]
  have harg : ∀ f ∈ (t.classes e.cls).fields, argument default e.baseArguments f = e.fields.get? f :=
    fun f hf => e.argument_base default (hfields ▸ hf) hf
  have hall : ((t.classes e.cls).fields.all fun f => (argument default e.baseArguments f).isSome) = true := by
    rw [List.all_eq_true]
    intro f hf
    rw [harg f hf]
    exact (e.complete f).2 hf
  unfold construct
  rw [if_pos (by simp [baseArguments]), if_pos hall]
  exact congrArg _ (ofFields_congr _ fun f hf => by rw [harg f hf])

/-- With own fields, `entity_id` is given twice. -/
theorem construct_own (e : Event t) (default : String → Option Json) (hown : (t.classes e.cls).ownFields ≠ []) :
    construct t e.cls default (e.baseArguments ++
      (e.attrs ((t.classes e.cls).fields.take (t.classes e.cls).ownFields.length)).map fun p => (p.1, .json p.2)) =
      .error .typeError := by
  obtain ⟨v, hv⟩ := e.entity_id_mem_body hown
  unfold construct
  rw [if_neg]
  intro hnd
  -- once as a column, once in the body
  rw [List.map_append, List.nodup_append] at hnd
  exact hnd.2.2 "entity_id" (by simp [baseArguments]) "entity_id" (by simpa using ⟨v, hv⟩) rfl

/-- For every event class, with any fields at any level: the body is the fields of the class that `PydanticEvent` does
not have exactly when there are no such fields.  The event is stored and comes back from its row equal in every field
exactly when, besides, the table takes it. -/
theorem round_trip_iff (t : EventTypes) (ord : SetOrder) (registry : Dict String Cls)
    (default : String → Option Json) (g : Generated) (e : Event t)
    (hres : (getEventCls t ord registry (t.classes e.cls).deafultTypeid pydanticEvent).2 = .ok e.cls) :
    (e.BodyExact ↔ (t.classes e.cls).ownFields = []) ∧
    ((∃ row e', EventTable.insert g (eventToMapping e) = .ok row ∧
      (mappingToEvent t ord registry default row).2 = .ok e' ∧ e.SameAs e') ↔
        (t.classes e.cls).ownFields = [] ∧ e.Fits) := by
  have hread := e.mappingToEvent_row ord registry default g hres
  refine ⟨e.bodyExact_iff, ?_⟩
  constructor
  · rintro ⟨row, e', hrow, he', -⟩
    obtain ⟨hfits, rfl⟩ := insert_eq_ok.1 hrow
    refine ⟨?_, hfits⟩
    by_contra hown
    rw [hread, e.construct_own default hown] at he'
    cases he'
  · rintro ⟨hown, hfits⟩
    refine ⟨_, _, insert_eq_ok.2 ⟨hfits, rfl⟩, ?_, e.sameAs_ofFields⟩
    rw [hread]
    simpa [hown, attrs] using e.construct_base default hown

end Event

/-! ### An event with a field of its own -/

namespace TodoApp

/-- The class `TodoCreated`, the fields declared level by level. -/
def created (levels : List (List String)) : EventState :=
  ⟨EventTypes.new.define [pydanticEvent] ⟨"demo.todo", "TodoCreated", none, "demo", "1", levels⟩, .empty⟩

/-- An event of this class, each field holding its name. -/
def createdEvent (levels : List (List String)) : Event (created levels).types := .ofFields _ 5 .str

theorem fits_createdEvent (levels : List (List String)) : (createdEvent levels).Fits := by
  intro f hf
  have hfield : f ∈ ((created levels).types.classes 5).fields := by
    rw [EventClass.fields_eq]
    exact List.mem_append_left _ hf
  have hget : (createdEvent levels).fields.get? f = some (.str f) := Event.get?_ofFields 5 _ hfield
  rw [hget]
  rfl

/-- With a field `title`, the body holds `entity_id` instead, and the row, which the table takes, cannot be read
back. -/
theorem title_lost :
    (getEventCls (created [["title"]]).types .listed .empty
        ((created [["title"]]).types.classes (createdEvent [["title"]]).cls).deafultTypeid pydanticEvent).2 =
      .ok (createdEvent [["title"]]).cls ∧
    (createdEvent [["title"]]).normalized.get? "event_body" = some (.obj [("entity_id", .str "entity_id")]) ∧
    ¬ (createdEvent [["title"]]).BodyExact ∧
    ∃ row, EventTable.insert ⟨1, 0, 0⟩ (eventToMapping (createdEvent [["title"]])) = .ok row ∧
      (mappingToEvent (created [["title"]]).types .listed .empty (fun _ => none) row).2 = .error .typeError := by
  have hres : (getEventCls (created [["title"]]).types .listed .empty
      ((created [["title"]]).types.classes (createdEvent [["title"]]).cls).deafultTypeid pydanticEvent).2 =
      .ok (createdEvent [["title"]]).cls := by
    decide +kernel
  have hown : ((created [["title"]]).types.classes (createdEvent [["title"]]).cls).ownFields ≠ [] := by
    decide +kernel
  refine ⟨hres, rfl, fun h => hown ((Event.bodyExact_iff _).1 h), _, Event.insert_eq_ok.2 ⟨?_, rfl⟩, ?_⟩
  · exact fits_createdEvent _
  · rw [Event.mappingToEvent_row _ _ _ _ _ hres, Event.construct_own _ _ hown]

/-- Levels that declare nothing new, or a field of the base again, do no harm. -/
theorem redeclared_returns :
    ∃ row e', EventTable.insert ⟨1, 0, 0⟩ (eventToMapping (createdEvent [["timestamp"], []])) = .ok row ∧
      (mappingToEvent (created [["timestamp"], []]).types .listed .empty (fun _ => none) row).2 = .ok e' ∧
        (createdEvent [["timestamp"], []]).SameAs e' :=
  (Event.round_trip_iff _ .listed .empty (fun _ => none) ⟨1, 0, 0⟩ (createdEvent [["timestamp"], []])
    (by decide +kernel)).2.2 ⟨by decide +kernel, fits_createdEvent _⟩

end TodoApp

end Anywise.Messages
