import Anywise.Lib.Dict
import Anywise.Lib.Run
import Anywise.Visitor
import Mathlib.Logic.Function.Basic

/-!
# Event classes and their ids

An event writes the id of its class into its normalized form, and `get_event_cls` finds the class of an id in a
registry, which it fills from `__subclasses__` when an id is missing.  The writer calls `deafult_typeid`, which names
module and class; the reader asks each class for its `__type_id__`, which may be overridden.  The id an event carries
leads back to its class exactly when the two agree on the class and no other event class has this id
(`resolves_iff`).
-/

namespace Anywise.Messages

/-! ### Values -/

/-- A JSON value; a number is `mantissa * 10 ^ exponent`. -/
inductive Json
  | null
  | bool (b : Bool)
  | num (mantissa exponent : Int)
  | str (s : String)
  | arr (vs : List Json)
  | obj (kvs : List (String × Json))

/-! ### Event classes -/

/-- The fields `PydanticEvent` declares. -/
def BASE_FIELDS : List String := ["entity_id", "event_id", "timestamp"]

/-- What the library reads off an event class.  `levels` are the fields declared below `PydanticEvent`, class by
class from the base down; `override` is the answer of `__type_id__` where it is overridden. -/
structure EventClass where
  module : String
  name : String
  override : Option String
  source : String
  version : String
  levels : List (List String)

namespace EventClass

/-- A field of a name that is there already keeps its place. -/
def addField (fields : List String) (field : String) : List String :=
  if field ∈ fields then fields else fields ++ [field]

/-- `__pydantic_fields__`, inherited fields before the class's own. -/
def fields (c : EventClass) : List String := c.levels.flatten.foldl addField BASE_FIELDS

/-- The fields `PydanticEvent` does not have. -/
def ownFields (c : EventClass) : List String := c.fields.filter (· ∉ BASE_FIELDS)

/-- `deafult_typeid(cls)` -/
def deafultTypeid (c : EventClass) : String := c.module ++ ":" ++ c.name

/-- `cls.__type_id__()` -/
def typeId (c : EventClass) : String := c.override.getD c.deafultTypeid

end EventClass

/-- The default `Event`, defined first. -/
def pydanticEvent : Cls := 4

/-- The event classes of the process.  Classes that are no events stand for mixins. -/
structure EventTypes where
  graph : ClassGraph
  classes : Cls → EventClass
  proper : ∀ c b, pydanticEvent ≤ c → graph.DirectSub c b → b = Cls.object ∨ pydanticEvent ≤ b

namespace EventTypes

/-- The bases of an event class: they are no builtin classes but `object`. -/
def Definable (t : EventTypes) (bases : List Cls) : Prop :=
  t.graph.Definable bases ∧ ∀ b ∈ bases, b = Cls.object ∨ pydanticEvent ≤ b

instance (t : EventTypes) (bases : List Cls) : Decidable (t.Definable bases) := inferInstanceAs (Decidable (_ ∧ _))

/-- A `class` statement: the new class is number `t.graph.size`. -/
def define (t : EventTypes) (bases : List Cls) (c : EventClass) : EventTypes :=
  if h : t.Definable bases then
    { graph := t.graph.define bases
      classes := Function.update t.classes t.graph.size c
      proper := by
        intro d b hd hdb
        rcases t.graph.directSub_define.1 hdb with hdb | ⟨-, -, hb⟩
        · exact t.proper d b hd hdb
        · exact h.2 b hb }
  else t

/-- Before any event class is defined by the user. -/
def new : EventTypes where
  graph := ClassGraph.builtin.define [Cls.object]
  classes _ := ⟨"anywise.messages.model", "PydanticEvent", none, "unspecified", "1", []⟩
  proper c b hc hcb := by
    rcases ClassGraph.builtin.directSub_define.1 hcb with hcb | ⟨-, -, hb⟩
    · exact absurd hc (Nat.not_le_of_lt (ClassGraph.builtin.lt_of_directSub hcb).2)
    · exact Or.inl (List.mem_singleton.1 hb)

/-- `c` derives from `PydanticEvent`. -/
def IsEvent (t : EventTypes) (c : Cls) : Prop := Relation.TransGen t.graph.DirectSub c pydanticEvent

end EventTypes

/-! ### `get_event_cls` -/

/-- `get_event_cls(event_type_id, event_cls)`: the registry afterwards, and the class. -/
def getEventCls (t : EventTypes) (ord : SetOrder) (registry : Dict String Cls) (eventTypeId : String)
    (eventCls : Cls) : Dict String Cls × Except PyErr Cls :=
  match registry.get? eventTypeId with
  | some c => (registry, .ok c)
  | none =>
    match allSubclasses t.graph eventCls with
    | .error e => (registry, .error e)
    | .ok subs =>
      -- of two classes with one id the last one of the set stays
      let found : Dict String Cls := Dict.empty.update ((ord.iter subs).map fun c => ((t.classes c).typeId, c))
      let registry := registry.update found.items
      match registry.get? eventTypeId with
      | some c => (registry, .ok c)
      | none => (registry, .error (.unregisteredEvent eventTypeId))

/-- The event classes, and `__EventTypeRegistry__`. -/
structure EventState where
  types : EventTypes
  registry : Dict String Cls

inductive EventAct
  /-- a `class` statement -/
  | define (bases : List Cls) (c : EventClass)
  /-- `get_event_cls(event_type_id, event_cls)` -/
  | getEventCls (ord : SetOrder) (eventTypeId : String) (eventCls : Cls)

namespace EventState

def new : EventState := ⟨.new, .empty⟩

def step (s : EventState) : EventAct → Option EventState
  | .define bases c => if s.types.Definable bases then some { s with types := s.types.define bases c } else none
  | .getEventCls ord id eventCls =>
    some { s with registry := (Messages.getEventCls s.types ord s.registry id eventCls).1 }

end EventState

/-! ### Events -/

/-- An instance of an event class. -/
structure Event (t : EventTypes) where
  cls : Cls
  fields : Dict String Json
  complete : ∀ f, (fields.get? f).isSome ↔ f ∈ (t.classes cls).fields

namespace Event

variable {t : EventTypes}

/-- The instance of the class with the given field values. -/
def ofFields (t : EventTypes) (cls : Cls) (value : String → Json) : Event t where
  cls := cls
  fields := Dict.empty.update ((t.classes cls).fields.map fun f => (f, value f))
  complete f := by
    rw [Dict.get?_update, Dict.get?_empty, Option.or_none, Dict.lastOf_isSome]
    simp

/-- `{f: getattr(self, f) for f in names}`; an instance has all its fields. -/
def attrs (e : Event t) (names : List String) : List (String × Json) :=
  names.filterMap fun f => (e.fields.get? f).map (f, ·)

/-- `__normalized__()` -/
def normalized (e : Event t) : Dict String Json :=
  let c := t.classes e.cls
  -- `list(self.__pydantic_fields__.keys())[: -len(base_fields)]`
  let currentOnlyFields := c.fields.take (c.fields.length - BASE_FIELDS.length)
  let mapping : Dict String Json := Dict.empty.update (e.attrs BASE_FIELDS)
  let eventBody : Json := .obj (e.attrs currentOnlyFields)
  let mapping := mapping.set "event_type" (.str c.deafultTypeid)
  let mapping := mapping.set "version" (.str c.version)
  let mapping := mapping.set "source" (.str c.source)
  mapping.set "event_body" eventBody

end Event

/-! ### Event classes in a run -/

section

variable {t : EventTypes}

theorem EventTypes.IsEvent.lt {c : Cls} (h : t.IsEvent c) : pydanticEvent < c ∧ c < t.graph.size := by
  induction h using Relation.TransGen.head_induction_on with
  | single h => exact t.graph.lt_of_directSub h
  | head h _ ih => exact ⟨ih.1.trans (t.graph.lt_of_directSub h).1, (t.graph.lt_of_directSub h).2⟩

/-- An event class derives from event classes and `object`. -/
theorem EventTypes.sub_proper {c d : Cls} (hc : pydanticEvent ≤ c) (h : t.graph.Sub c d) :
    d = Cls.object ∨ pydanticEvent ≤ d := by
  induction h with
  | refl => exact Or.inr hc
  | tail _ hbd ih =>
    rcases ih with rfl | hb
    · exact absurd (t.graph.lt_of_directSub hbd).1 (Nat.not_lt_zero _)
    · exact t.proper _ _ hb hbd

/-- `all_subclasses` succeeds on event classes. -/
theorem EventTypes.allSubclasses_ok {c : Cls} (hc : pydanticEvent ≤ c) :
    ∃ subs, allSubclasses t.graph c = .ok subs := by
  refine allSubclasses_ok_iff.2 fun d hd htype => ?_
  rcases sub_proper (hc.trans (t.graph.le_of_sub hd)) htype with h | h
  · cases h
  · exact absurd h (by decide)

theorem EventTypes.mem_allSubclasses {subs : List Cls} (h : allSubclasses t.graph pydanticEvent = .ok subs)
    {c : Cls} : c ∈ subs ↔ t.IsEvent c := Anywise.mem_allSubclasses h

/-- Class statements leave the classes defined before as they are. -/
theorem EventTypes.IsEvent.define {c : Cls} (h : t.IsEvent c) (bases : List Cls) (d : EventClass) :
    (t.define bases d).IsEvent c ∧ (t.define bases d).classes c = t.classes c := by
  unfold EventTypes.define
  split
  · refine ⟨Relation.TransGen.mono (fun _ _ hab => t.graph.directSub_define.2 (Or.inl hab)) _ _ h, ?_⟩
    exact Function.update_of_ne (Nat.ne_of_lt h.lt.2) _ _
  · exact ⟨h, rfl⟩

/-! ### What the registry holds -/

/-- The registry files event classes under their ids. -/
def Filed (t : EventTypes) (registry : Dict String Cls) : Prop :=
  ∀ id c, registry.get? id = some c → t.IsEvent c ∧ (t.classes c).typeId = id

/-- The last class in the list with the id. -/
theorem lastOf_typeId {subs : List Cls} {id : String} {c : Cls}
    (h : Dict.lastOf id (subs.map fun c => ((t.classes c).typeId, c)) = some c) :
    c ∈ subs ∧ (t.classes c).typeId = id := by
  obtain ⟨d, hd, heq⟩ := List.mem_map.1 (Dict.mem_of_lastOf h)
  obtain ⟨hid, rfl⟩ := Prod.mk.inj heq
  exact ⟨hd, hid⟩

/-- What a lookup that misses the registry adds to it. -/
theorem get?_refill (ord : SetOrder) (registry : Dict String Cls) (subs : List Cls) (id : String) :
    (registry.update (Dict.empty.update ((ord.iter subs).map fun c => ((t.classes c).typeId, c)) :
      Dict String Cls).items).get? id =
      (Dict.lastOf id ((ord.iter subs).map fun c => ((t.classes c).typeId, c))).or (registry.get? id) := by
  rw [Dict.get?_update_items, Dict.get?_update, Dict.get?_empty, Option.or_none]

/-- What a lookup leaves under an id: what was there, or a strict subclass of its base that has this id. -/
theorem get?_getEventCls {registry : Dict String Cls} {ord : SetOrder} {id id' : String} {eventCls c : Cls}
    (h : (getEventCls t ord registry id eventCls).1.get? id' = some c) :
    registry.get? id' = some c ∨ ∃ subs, allSubclasses t.graph eventCls = .ok subs ∧
      Relation.TransGen t.graph.DirectSub c eventCls ∧ (t.classes c).typeId = id' := by
  unfold getEventCls at h
  split at h
  · exact Or.inl h
  · split at h
    · exact Or.inl h
    · rename_i subs hsubs
      have hrefill : (registry.update (Dict.empty.update
          ((ord.iter subs).map fun c => ((t.classes c).typeId, c)) : Dict String Cls).items).get? id' = some c := by
        dsimp only at h
        split at h <;> exact h
      rw [get?_refill, Option.or_eq_some_iff] at hrefill
      rcases hrefill with hc | ⟨-, hc⟩
      · obtain ⟨hmem, hid⟩ := lastOf_typeId hc
        exact Or.inr ⟨subs, hsubs, (Anywise.mem_allSubclasses hsubs).1 (ord.mem_iter.1 hmem), hid⟩
      · exact Or.inl hc

theorem Filed.getEventCls {registry : Dict String Cls} (h : Filed t registry) (ord : SetOrder) (id : String)
    {eventCls : Cls} (hbase : t.graph.Sub eventCls pydanticEvent) :
    Filed t (getEventCls t ord registry id eventCls).1 := by
  intro id' c hc
  rcases get?_getEventCls hc with hc | ⟨-, -, hsub, hid⟩
  · exact h id' c hc
  · exact ⟨hsub.trans_left hbase, hid⟩

theorem Filed.define {registry : Dict String Cls} (h : Filed t registry) (bases : List Cls) (c : EventClass) :
    Filed (t.define bases c) registry := by
  intro id d hd
  obtain ⟨hevent, hid⟩ := h id d hd
  obtain ⟨hevent', hsame⟩ := hevent.define bases c
  exact ⟨hevent', by rw [hsame, hid]⟩

/-- Under the default base, the id of a class that no other one has leads to this class. -/
theorem getEventCls_eq {registry : Dict String Cls} (h : Filed t registry) (ord : SetOrder) {c : Cls}
    (hc : t.IsEvent c) (huniq : ∀ d, t.IsEvent d → (t.classes d).typeId = (t.classes c).typeId → d = c) :
    (getEventCls t ord registry (t.classes c).typeId pydanticEvent).2 = .ok c := by
  obtain ⟨subs, hsubs⟩ := t.allSubclasses_ok (c := pydanticEvent) le_rfl
  unfold Messages.getEventCls
  rw [hsubs]
  split
  · rename_i d hd
    obtain ⟨hevent, hid⟩ := h _ d hd
    rw [huniq d hevent hid]
  · rename_i hnone
    simp only [get?_refill, hnone, Option.or_none]
    have hsome : (Dict.lastOf (t.classes c).typeId
        ((ord.iter subs).map fun c => ((t.classes c).typeId, c))).isSome :=
      Dict.lastOf_isSome.2 ⟨c, List.mem_map.2 ⟨c, ord.mem_iter.2 ((EventTypes.mem_allSubclasses hsubs).2 hc), rfl⟩⟩
    obtain ⟨d, hd⟩ := Option.isSome_iff_exists.1 hsome
    obtain ⟨hmem, hid⟩ := lastOf_typeId hd
    rw [hd, huniq d ((EventTypes.mem_allSubclasses hsubs).1 (ord.mem_iter.1 hmem)) hid]

end

namespace Event

variable {t : EventTypes}

/-- The id an event carries. -/
theorem get?_event_type (e : Event t) :
    e.normalized.get? "event_type" = some (.str (t.classes e.cls).deafultTypeid) := by
  simp [normalized, Dict.get?_set]

end Event

/-! ### Runs -/

namespace EventState

variable {s s' : EventState}

/-- What a step does: it defines a class or looks one up. -/
theorem step_cases {a : EventAct} (h : s.step a = some s') :
    (∃ bases c, a = .define bases c ∧ s.types.Definable bases ∧ s' = { s with types := s.types.define bases c }) ∨
      ∃ ord id eventCls, a = .getEventCls ord id eventCls ∧
        s' = { s with registry := (Messages.getEventCls s.types ord s.registry id eventCls).1 } := by
  cases a with
  | define bases c =>
    simp only [step] at h
    by_cases hd : s.types.Definable bases
    · rw [if_pos hd] at h
      exact Or.inl ⟨bases, c, rfl, hd, (Option.some.inj h).symm⟩
    · rw [if_neg hd] at h
      cases h
  | getEventCls ord id eventCls => exact Or.inr ⟨ord, id, eventCls, rfl, (Option.some.inj h).symm⟩

/-- A lookup asks for the default `Event` or a class derived from it. -/
def DefaultLookup (s : EventState) (a : EventAct) : Prop :=
  ∀ ord id eventCls, a = .getEventCls ord id eventCls → s.types.graph.Sub eventCls pydanticEvent

theorem filed_run {acts : List EventAct} (hrun : Run.run step new acts = some s)
    (hlookups : Run.Meets step DefaultLookup new acts) : Filed s.types s.registry := by
  refine Run.invariant (I := fun s => Filed s.types s.registry) (fun s a s' hs ha hstep => ?_)
    (fun id c h => by simp [new] at h) hlookups hrun
  rcases step_cases hstep with ⟨bases, c, rfl, -, rfl⟩ | ⟨ord, id, eventCls, rfl, rfl⟩
  · exact hs.define bases c
  · exact hs.getEventCls ord id (ha ord id eventCls rfl)

/-- The classes of a run can be defined without any lookup. -/
theorem run_definitions {acts : List EventAct} (hrun : Run.run step s acts = some s') (registry : Dict String Cls) :
    ∃ defs, Run.run step ⟨s.types, registry⟩ defs = some ⟨s'.types, registry⟩ ∧
      Run.Meets step DefaultLookup ⟨s.types, registry⟩ defs := by
  induction acts generalizing s with
  | nil =>
    cases hrun
    exact ⟨[], rfl, trivial⟩
  | cons a acts ih =>
    obtain ⟨u, hu, hrun⟩ := Run.run_cons.1 hrun
    obtain ⟨defs, hdefs, hmeets⟩ := ih hrun
    rcases step_cases hu with ⟨bases, c, rfl, hd, rfl⟩ | ⟨ord, id, eventCls, rfl, rfl⟩
    · have hstep : step ⟨s.types, registry⟩ (.define bases c) = some ⟨s.types.define bases c, registry⟩ := by
        simp only [step, if_pos hd]
      refine ⟨.define bases c :: defs, Run.run_cons.2 ⟨_, hstep, hdefs⟩, by simp [DefaultLookup], fun t ht => ?_⟩
      rw [Option.mem_def, hstep] at ht
      cases ht
      exact hmeets
    · exact ⟨defs, hdefs, hmeets⟩

end EventState

/-- The set order that comes to `c` last. -/
def endingWith (c : Cls) : SetOrder where
  iter l := if c ∈ l then l.erase c ++ [c] else l
  perm l := by
    split
    · rename_i hc
      exact (List.perm_append_singleton c _).trans (List.perm_cons_erase hc).symm
    · exact .rfl

/-- The first lookup of an id finds the class that comes last among those with the id. -/
theorem getEventCls_empty {t : EventTypes} {ord : SetOrder} {id : String} {c : Cls}
    (h : (getEventCls t ord .empty id pydanticEvent).2 = .ok c) :
    ∃ subs, allSubclasses t.graph pydanticEvent = .ok subs ∧
      Dict.lastOf id ((ord.iter subs).map fun c => ((t.classes c).typeId, c)) = some c := by
  obtain ⟨subs, hsubs⟩ := t.allSubclasses_ok (c := pydanticEvent) le_rfl
  refine ⟨subs, hsubs, ?_⟩
  unfold getEventCls at h
  simp only [Dict.get?_empty, hsubs, get?_refill, Option.or_none] at h
  split at h
  · rename_i d hd
    cases h
    exact hd
  · cases h

/-- Whatever lookups of default events came before, and in whatever order sets are iterated over: the id an event
carries leads back to its class exactly when `__type_id__` of the class is the default one and no other event class
has this id. -/
theorem resolves_iff (acts₀ : List EventAct) (s₀ : EventState)
    (hrun₀ : Run.run EventState.step .new acts₀ = some s₀) (e : Event s₀.types) (he : s₀.types.IsEvent e.cls) :
    (∀ acts s ord, Run.run EventState.step .new acts = some s →
      Run.Meets EventState.step EventState.DefaultLookup .new acts → s.types = s₀.types →
      ∃ id, e.normalized.get? "event_type" = some (.str id) ∧
        (getEventCls s.types ord s.registry id pydanticEvent).2 = .ok e.cls) ↔
      (s₀.types.classes e.cls).typeId = (s₀.types.classes e.cls).deafultTypeid ∧
        ∀ d, s₀.types.IsEvent d → d ≠ e.cls →
          (s₀.types.classes d).typeId ≠ (s₀.types.classes e.cls).deafultTypeid := by
  constructor
  · intro h
    obtain ⟨defs, hdefs, hmeets⟩ := EventState.run_definitions hrun₀ .empty
    have hfirst : ∀ ord, (getEventCls s₀.types ord .empty (s₀.types.classes e.cls).deafultTypeid pydanticEvent).2 =
        .ok e.cls := by
      intro ord
      obtain ⟨id, hid, hok⟩ := h defs _ ord hdefs hmeets rfl
      rw [e.get?_event_type] at hid
      cases hid
      exact hok
    obtain ⟨subs, hsubs, hlast⟩ := getEventCls_empty (hfirst .listed)
    refine ⟨(lastOf_typeId hlast).2, fun d hd hne hid => hne ?_⟩
    -- the other class comes last
    obtain ⟨subs', hsubs', hlast'⟩ := getEventCls_empty (hfirst (endingWith d))
    have hmem : d ∈ subs' := (EventTypes.mem_allSubclasses hsubs').2 hd
    simp only [endingWith, if_pos hmem, List.map_append, List.map_cons, List.map_nil, hid, Dict.lastOf_concat,
      Option.some.injEq] at hlast'
    exact hlast'
  · rintro ⟨hid, huniq⟩ acts s ord hrun hmeets htypes
    refine ⟨_, e.get?_event_type, ?_⟩
    have hfiled := EventState.filed_run hrun hmeets
    rw [htypes] at hfiled ⊢
    rw [← hid]
    refine getEventCls_eq hfiled ord he fun d hd hsame => ?_
    by_contra hne
    exact huniq d hd hne (hsame.trans hid)

/-! ### A class that keeps its id -/

namespace TodoApp

/-- An event class of the demo, without fields of its own. -/
def retitled (override : Option String) : EventClass :=
  ⟨"demo.todo", "TodoRetitled", override, "demo", "1", []⟩

def TodoRetitled : Cls := 5

def classes (override : Option String) : EventState :=
  ⟨EventTypes.new.define [pydanticEvent] (retitled override), .empty⟩

theorem run_classes (override : Option String) :
    Run.run EventState.step .new [.define [pydanticEvent] (retitled override)] = some (classes override) := by
  simp only [Run.run, EventState.step, EventState.new]
  rfl

/-- An event with the three fields of the base. -/
def event (override : Option String) : Event (classes override).types := .ofFields _ TodoRetitled .str

theorem isEvent (override : Option String) : (classes override).types.IsEvent (event override).cls := by
  have hbase : pydanticEvent ∈ (EventTypes.new.graph.define [pydanticEvent]).basesOf TodoRetitled := by decide
  exact .single hbase

/-- The class has been renamed and has kept its id: its events cannot be read back. -/
theorem renamed_unresolved :
    Run.run EventState.step .new [.define [pydanticEvent] (retitled (some "demo.todo:TodoRenamed"))] =
        some (classes (some "demo.todo:TodoRenamed")) ∧
      (classes (some "demo.todo:TodoRenamed")).types.IsEvent (event (some "demo.todo:TodoRenamed")).cls ∧
      (event (some "demo.todo:TodoRenamed")).normalized.get? "event_type" = some (.str "demo.todo:TodoRetitled") ∧
      (getEventCls (classes (some "demo.todo:TodoRenamed")).types .listed .empty "demo.todo:TodoRetitled"
        pydanticEvent).2 = .error (.unregisteredEvent "demo.todo:TodoRetitled") := by
  refine ⟨run_classes _, isEvent _, (event _).get?_event_type, ?_⟩
  decide +kernel

/-- With the inherited `__type_id__` they can. -/
theorem inherited_resolved :
    ∃ id, (event none).normalized.get? "event_type" = some (.str id) ∧
      (getEventCls (classes none).types .listed .empty id pydanticEvent).2 = .ok TodoRetitled := by
  refine (resolves_iff _ (classes none) (run_classes none) (event none) (isEvent none)).2 ⟨rfl, ?_⟩ _ _ .listed
    (run_classes none) (by simp [Run.Meets, EventState.DefaultLookup]) rfl
  intro d hd hne
  have hsize : (classes none).types.graph.size = 6 := rfl
  obtain ⟨hlt, hlt'⟩ := hd.lt
  rw [hsize] at hlt'
  exact absurd (Nat.le_antisymm (Nat.le_of_lt_succ hlt') hlt) hne

end TodoApp

end Anywise.Messages
