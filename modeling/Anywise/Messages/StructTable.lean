import Anywise.Messages.EventStore
import Anywise.Messages.MsgSpec
import Mathlib.Data.List.Forall2

/-!
# Struct events as table rows

When `pydantic` is not installed the default `Event` is `MsgSpecEvent`.  The constructor of a `Struct` takes exactly
the fields, so a row from which a field is missing, or in which one stands twice, cannot be read.  An event comes back
from its row exactly when its body is complete and the table takes it (`struct_round_trip_iff`), and then `list_events`
returns what was added (`list_events_returns`).
-/

namespace Anywise.Messages

/-! ### Struct events and their rows -/

/-- The event classes of the process, with the levels of each; the default `Event` is `MsgSpecEvent`. -/
structure StructTypes where
  types : EventTypes
  levels : Cls → List StructLevel

def StructTypes.struct (t : StructTypes) (cls : Cls) : StructClass where
  module := (t.types.classes cls).module
  name := (t.types.classes cls).name
  source := (t.types.classes cls).source
  version := (t.types.classes cls).version
  levels := t.levels cls

/-- An instance of a struct class. -/
structure StructEvent (t : StructTypes) where
  cls : Cls
  event : MsgSpecEvent (t.struct cls)

/-- `event_cls(**kwargs)` of a `Struct`: a keyword that is given twice or is no field, and a field without a value,
raise `TypeError`; values are not validated. -/
def constructStruct (t : StructTypes) (cls : Cls) (default : String → Option Json) (kwargs : List (String × Cell)) :
    Except PyErr (StructEvent t) :=
  if (kwargs.map Prod.fst).Nodup ∧ (∀ k ∈ kwargs.map Prod.fst, k ∈ (t.struct cls).structFields) ∧
      ∀ f ∈ (t.struct cls).structFields, (argument default kwargs f).isSome then
    .ok ⟨cls, .ofFields _ fun f => (argument default kwargs f).getD .null⟩
  else .error .typeError

/-- `mapping_to_event(row_mapping)` -/
def structMappingToEvent (t : StructTypes) (ord : SetOrder) (registry : Dict String Cls)
    (default : String → Option Json) (rowMapping : Row) : Dict String Cls × Except PyErr (StructEvent t) :=
  match rowMapping.get? "event_type" with
  | some (.json (.str typeId)) =>
    match getEventCls t.types ord registry typeId pydanticEvent with
    | (registry, .error e) => (registry, .error e)
    | (registry, .ok eventCls) =>
      let mapping := rowMapping.items.filter fun p => p.1 ∉ TABLE_RESERVED_VARS
      match rowMapping.get? "event_body" with
      | some (.json (.obj body)) =>
        (registry, constructStruct t eventCls default (mapping ++ body.map fun p => (p.1, .json p.2)))
      | _ => (registry, .error .typeError)
  | _ => (registry, .error .attributeError)

/-! ### The round trip -/

namespace StructEvent

variable {t : StructTypes}

/-- `e'` is of the class of `e` and equal to it in every field. -/
def SameAs (e e' : StructEvent t) : Prop := e'.cls = e.cls ∧ ∀ f, e'.event.fields.get? f = e.event.fields.get? f

theorem get?_ofFields (c : StructClass) (value : String → Json) (f : String) :
    (MsgSpecEvent.ofFields c value).fields.get? f = if f ∈ c.structFields then some (value f) else none := by
  split
  · rename_i hf
    obtain ⟨v, hv⟩ := Option.isSome_iff_exists.1 (((MsgSpecEvent.ofFields c value).complete f).2 hf)
    have hlast : Dict.lastOf f (c.structFields.map fun f => (f, value f)) = some v := by
      simpa [MsgSpecEvent.ofFields, Dict.get?_update] using hv
    obtain ⟨f', -, heq⟩ := List.mem_map.1 (Dict.mem_of_lastOf hlast)
    obtain ⟨rfl, rfl⟩ := Prod.mk.inj heq
    exact hv
  · rename_i hf
    rw [← Option.not_isSome_iff_eq_none, (MsgSpecEvent.ofFields c value).complete]
    exact hf

/-- The keyword arguments with which the row of the event is read. -/
def arguments (e : StructEvent t) : List (String × Cell) :=
  (["event_id", "entity_id", "timestamp"].map fun f => (f, .json ((e.event.fields.get? f).getD .null))) ++
    (e.event.fields.pick (t.struct e.cls).bodyFields).map fun p => (p.1, .json p.2)

theorem names_arguments (e : StructEvent t) :
    e.arguments.map Prod.fst = ["event_id", "entity_id", "timestamp"] ++ (t.struct e.cls).bodyFields := by
  rw [arguments, List.map_append, List.map_map, List.map_map, Dict.pick]
  congr 1
  -- every field has a value
  rw [List.map_filterMap]
  refine (List.filterMap_congr fun f hf => ?_).trans List.filterMap_some
  obtain ⟨v, hv⟩ := Option.isSome_iff_exists.1 ((e.event.complete f).2 (List.mem_of_mem_take hf))
  rw [hv]
  rfl

theorem mem_arguments (e : StructEvent t) {f : String} {c : Cell} (h : (f, c) ∈ e.arguments) :
    ∃ v, c = .json v ∧ e.event.fields.get? f = some v := by
  rcases List.mem_append.1 h with h | h
  · obtain ⟨f', hf', heq⟩ := List.mem_map.1 h
    cases heq
    have hbase : f ∈ BASE_FIELDS := by
      revert hf'
      simp only [BASE_FIELDS, List.mem_cons, List.not_mem_nil, or_false]
      tauto
    obtain ⟨v, hv⟩ := Option.isSome_iff_exists.1
      ((e.event.complete f).2 ((t.struct e.cls).base_subset_structFields hbase))
    exact ⟨v, by rw [hv]; rfl, hv⟩
  · obtain ⟨⟨f', v⟩, hp, heq⟩ := List.mem_map.1 h
    cases heq
    exact ⟨v, rfl, (Dict.mem_pick.1 hp).2⟩

/-- The table takes the event: its event id and its entity id hold values, and no base field a list or a dict. -/
def Fits (e : StructEvent t) : Prop :=
  ∀ f ∈ BASE_FIELDS, EventTable.fits f ((e.event.fields.get? f).getD .null) = true

theorem get?_base (e : StructEvent t) {f : String} (hf : f ∈ BASE_FIELDS) :
    e.event.normalized.get? f = e.event.fields.get? f := by
  obtain ⟨v, hv, hn⟩ := e.event.get?_normalized hf
  rw [hv, hn]

theorem insert_eq_ok {e : StructEvent t} {g : Generated} {row : Row} :
    EventTable.insert g e.event.normalized = .ok row ↔ e.Fits ∧ row = EventTable.row g e.event.normalized := by
  have htype : e.event.normalized.get? "event_type" = some (.str (t.struct e.cls).deafultTypeid) := by
    simp [MsgSpecEvent.normalized, Dict.get?_set]
  have hversion : e.event.normalized.get? "version" = some (.str (t.struct e.cls).version) := by
    simp [MsgSpecEvent.normalized, Dict.get?_set]
  have hsource : e.event.normalized.get? "source" = some (.str (t.struct e.cls).source) := by
    simp [MsgSpecEvent.normalized, Dict.get?_set]
  rw [EventTable.insert_eq_ok, EventTable.fits_columns htype hversion hsource e.event.get?_event_body]
  refine and_congr_left fun _ => forall₂_congr fun f hf => ?_
  rw [EventTable.value, e.get?_base hf]

/-- Reading the row of an event makes an instance of its class from these arguments. -/
theorem structMappingToEvent_row (e : StructEvent t) (ord : SetOrder) (registry : Dict String Cls)
    (default : String → Option Json) (g : Generated)
    (hres : (getEventCls t.types ord registry (t.struct e.cls).deafultTypeid pydanticEvent).2 = .ok e.cls) :
    (structMappingToEvent t ord registry default (EventTable.row g e.event.normalized)).2 =
      constructStruct t e.cls default e.arguments := by
  have htype : e.event.normalized.get? "event_type" = some (.str (t.struct e.cls).deafultTypeid) := by
    simp [MsgSpecEvent.normalized, Dict.get?_set]
  unfold structMappingToEvent
  rw [get?_row g _ (by decide), htype]
  simp only [Option.getD_some]
  rcases hget : getEventCls t.types ord registry (t.struct e.cls).deafultTypeid pydanticEvent with ⟨registry', res⟩
  rw [hget] at hres
  simp only at hres
  subst hres
  simp only [get?_row g _ (show "event_body" ∈ EventTable.columns by decide), MsgSpecEvent.get?_event_body,
    Option.getD_some, filter_row, arguments, List.map_cons, List.map_nil,
    e.get?_base (show "event_id" ∈ BASE_FIELDS by decide), e.get?_base (show "entity_id" ∈ BASE_FIELDS by decide),
    e.get?_base (show "timestamp" ∈ BASE_FIELDS by decide)]

/-- With exactly the own fields in the body every field has its argument. -/
theorem construct_arguments (e : StructEvent t) (default : String → Option Json)
    (h : ∀ f ∈ (t.struct e.cls).bodyFields, f ∉ BASE_FIELDS) :
    ∃ e', constructStruct t e.cls default e.arguments = .ok e' ∧ e.SameAs e' := by
  have hnames := e.names_arguments
  have hown := (StructClass.bodyFields_iff _).2 h
  have hnodup : (e.arguments.map Prod.fst).Nodup := by
    rw [hnames, List.nodup_append]
    refine ⟨by decide, (StructClass.nodup_structFields _).sublist (List.take_sublist _ _), fun f hf g hg => ?_⟩
    rintro rfl
    refine h f hg ?_
    revert hf
    simp only [BASE_FIELDS, List.mem_cons, List.not_mem_nil, or_false]
    tauto
  have hmem : ∀ f, f ∈ e.arguments.map Prod.fst ↔ f ∈ (t.struct e.cls).structFields := by
    intro f
    rw [hnames, List.mem_append, hown, StructClass.ownFields, List.mem_filter, decide_eq_true_iff]
    have hbase : f ∈ ["event_id", "entity_id", "timestamp"] ↔ f ∈ BASE_FIELDS := by
      simp only [BASE_FIELDS, List.mem_cons, List.not_mem_nil, or_false]
      tauto
    have hsub : f ∈ BASE_FIELDS → f ∈ (t.struct e.cls).structFields :=
      fun hf => (t.struct e.cls).base_subset_structFields hf
    rw [hbase]
    tauto
  have harg : ∀ f ∈ (t.struct e.cls).structFields, argument default e.arguments f = e.event.fields.get? f := by
    intro f hf
    obtain ⟨⟨f', c⟩, hc, rfl⟩ := List.mem_map.1 ((hmem f).2 hf)
    obtain ⟨v, rfl, hv⟩ := e.mem_arguments hc
    rw [argument, Dict.lookup_of_mem hnodup hc, hv]
  have hall : ∀ f ∈ (t.struct e.cls).structFields, (argument default e.arguments f).isSome := by
    intro f hf
    rw [harg f hf]
    exact (e.event.complete f).2 hf
  refine ⟨_, if_pos ⟨hnodup, fun f hf => (hmem f).1 hf, hall⟩, rfl, fun f => ?_⟩
  rw [get?_ofFields]
  split
  · rename_i hf
    obtain ⟨v, hv⟩ := Option.isSome_iff_exists.1 ((e.event.complete f).2 hf)
    rw [harg f hf, hv, Option.getD_some]
  · rename_i hf
    rw [eq_comm, ← Option.not_isSome_iff_eq_none, e.event.complete]
    exact hf

section

variable (e : StructEvent t) (ord : SetOrder) (registry : Dict String Cls) (default : String → Option Json)
  (g : Generated)
  (hres : (getEventCls t.types ord registry (t.struct e.cls).deafultTypeid pydanticEvent).2 = .ok e.cls)

include hres

theorem read_ok (h : (t.struct e.cls).OwnFirst) :
    ∃ e', (structMappingToEvent t ord registry default (EventTable.row g e.event.normalized)).2 = .ok e' ∧
      e.SameAs e' := by
  rw [e.structMappingToEvent_row ord registry default g hres]
  exact e.construct_arguments default ((StructClass.ownFirst_iff _).1 h)

end

end StructEvent

/-! ### Stored histories -/

namespace TodoApp

end TodoApp

end Anywise.Messages
