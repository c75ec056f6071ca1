import Anywise.Messages.Model
import Mathlib.Data.List.Perm.Subperm

/-!
# `MsgSpecEvent`

A `Struct` keeps its positional fields before its keyword-only ones, and in each group those of the base before those
of the subclasses.  `__normalized__` takes for its own fields all but the last three.  So the body is right exactly when
no own field stands behind one of the base (`MsgSpecEvent.normalized_exact_iff`).  The fields of `MsgSpecEvent` are
keyword-only: where no field is declared again, they stand at the end as long as no subclass adds a keyword-only field
(`StructClass.ownFirst_iff_of_fresh`).
-/

namespace Anywise.Messages

/-! ### Struct classes -/

/-- A class statement below `MsgSpecEvent`: whether it says `kw_only=True`, and the fields it declares. -/
structure StructLevel where
  kwOnly : Bool
  declared : List String

/-- What the library reads off a class derived from `MsgSpecEvent`, `levels` from the base down. -/
structure StructClass where
  module : String
  name : String
  source : String
  version : String
  levels : List StructLevel

namespace StructClass

/-- The fields of `MsgSpecEvent`, each with whether it is keyword-only. -/
def baseCollected : Dict String Bool := Dict.empty.update (BASE_FIELDS.map fun f => (f, true))

/-- The positional fields are put before the keyword-only ones. -/
def split (fields : Dict String Bool) : Dict String Bool where
  items := (fields.items.filter fun p => !p.2) ++ fields.items.filter fun p => p.2
  nodup := by
    have hperm := (List.filter_append_perm (fun p : String × Bool => !p.2) fields.items).map Prod.fst
    simp only [Bool.not_not] at hperm
    exact hperm.nodup_iff.2 fields.nodup

/-- The fields of a class, from those of its base in the order they have there; one declared again keeps its place
among the positional or the keyword-only ones. -/
def collectLevel (fields : Dict String Bool) (level : StructLevel) : Dict String Bool :=
  split (fields.update (level.declared.map fun f => (f, level.kwOnly)))

/-- All fields in their order, each with whether it is keyword-only. -/
def collected (c : StructClass) : Dict String Bool := c.levels.foldl collectLevel baseCollected

/-- `__struct_fields__` -/
def structFields (c : StructClass) : List String := c.collected.items.map Prod.fst

/-- The fields `MsgSpecEvent` does not have. -/
def ownFields (c : StructClass) : List String := c.structFields.filter (· ∉ BASE_FIELDS)

/-- No field of its own stands behind one of `MsgSpecEvent`. -/
def OwnFirst (c : StructClass) : Prop := c.structFields.Pairwise fun f g => f ∈ BASE_FIELDS → g ∈ BASE_FIELDS

instance (c : StructClass) : Decidable c.OwnFirst := inferInstanceAs (Decidable (List.Pairwise _ _))

/-- `deafult_typeid(cls)` -/
def deafultTypeid (c : StructClass) : String := c.module ++ ":" ++ c.name

end StructClass

/-- An instance of a class derived from `MsgSpecEvent`. -/
structure MsgSpecEvent (c : StructClass) where
  fields : Dict String Json
  complete : ∀ f, (fields.get? f).isSome ↔ f ∈ c.structFields

namespace MsgSpecEvent

variable {c : StructClass}

/-- The instance with the given field values. -/
def ofFields (c : StructClass) (value : String → Json) : MsgSpecEvent c where
  fields := Dict.empty.update (c.structFields.map fun f => (f, value f))
  complete f := by
    rw [Dict.get?_update, Dict.get?_empty, Option.or_none, Dict.lastOf_isSome]
    simp

/-- `__normalized__()` -/
def normalized (e : MsgSpecEvent c) : Dict String Json :=
  -- `self.__struct_fields__[: -len(base_fields)]`
  let currentOnlyFields := c.structFields.take (c.structFields.length - BASE_FIELDS.length)
  let mapping : Dict String Json := Dict.empty.update (e.fields.pick BASE_FIELDS)
  let eventBody : Json := .obj (e.fields.pick currentOnlyFields)
  let mapping := mapping.set "event_type" (.str c.deafultTypeid)
  let mapping := mapping.set "version" (.str c.version)
  let mapping := mapping.set "source" (.str c.source)
  mapping.set "event_body" eventBody

/-- The base fields are at top level, and the body holds all other fields and nothing else. -/
def Exact (e : MsgSpecEvent c) : Prop :=
  (∀ f ∈ BASE_FIELDS, ∃ v, e.fields.get? f = some v ∧ e.normalized.get? f = some v) ∧
    ∃ kvs, e.normalized.get? "event_body" = some (.obj kvs) ∧
      ∀ f v, (f, v) ∈ kvs ↔ f ∈ c.ownFields ∧ e.fields.get? f = some v

end MsgSpecEvent

/-! ### The order of the fields -/

namespace StructClass

@[simp]
theorem get?_split (fields : Dict String Bool) (f : String) : (split fields).get? f = fields.get? f := by
  have hmem : ∀ k, (f, k) ∈ (split fields).items ↔ (f, k) ∈ fields.items := by
    intro k
    cases k <;> simp [split]
  refine Option.ext fun k => ?_
  rw [← Dict.mem_items, ← Dict.mem_items]
  exact hmem k

theorem nodup_structFields (c : StructClass) : c.structFields.Nodup := c.collected.nodup

theorem mem_structFields {c : StructClass} {f : String} : f ∈ c.structFields ↔ (c.collected.get? f).isSome := by
  rw [structFields, ← not_iff_not, ← Dict.lookup_eq_none, Option.not_isSome_iff_eq_none]
  rfl

/-- A class has the fields of its base. -/
private theorem get?_collectLevel {fields : Dict String Bool} {f : String} (h : (fields.get? f).isSome)
    (level : StructLevel) : ((collectLevel fields level).get? f).isSome := by
  rw [collectLevel, get?_split, Dict.get?_update, Option.isSome_or, h, Bool.or_true]

theorem base_subset_structFields (c : StructClass) : BASE_FIELDS ⊆ c.structFields := by
  intro f hf
  rw [mem_structFields, collected]
  have hbase : (baseCollected.get? f).isSome := by
    revert f
    decide
  generalize baseCollected = fields at hbase ⊢
  induction c.levels generalizing fields with
  | nil => exact hbase
  | cons level levels ih => exact ih _ (get?_collectLevel hbase level)

/-- The fields that `__normalized__` takes for the own ones. -/
def bodyFields (c : StructClass) : List String := c.structFields.take (c.structFields.length - BASE_FIELDS.length)

theorem length_ownFields (c : StructClass) : c.ownFields.length = c.bodyFields.length := by
  have hbase : (c.structFields.filter fun f => decide (f ∈ BASE_FIELDS)).Perm BASE_FIELDS := by
    refine (List.perm_ext_iff_of_nodup (c.nodup_structFields.filter _) (by decide)).2 fun f => ?_
    rw [List.mem_filter, decide_eq_true_iff]
    exact ⟨And.right, fun hf => ⟨c.base_subset_structFields hf, hf⟩⟩
  have hsum := List.length_eq_length_filter_add (l := c.structFields) fun f => decide (f ∈ BASE_FIELDS)
  rw [hbase.length_eq] at hsum
  have hown : c.ownFields = c.structFields.filter fun f => !decide (f ∈ BASE_FIELDS) :=
    List.filter_congr fun f _ => by rw [decide_not]
  rw [bodyFields, List.length_take, hown]
  omega

/-- The fields taken for the own ones are the own ones as soon as they are no base fields. -/
theorem bodyFields_iff (c : StructClass) :
    (∀ f, f ∈ c.bodyFields ↔ f ∈ c.ownFields) ↔ ∀ f ∈ c.bodyFields, f ∉ BASE_FIELDS := by
  constructor
  · intro h f hf
    have hown := (h f).1 hf
    rw [ownFields, List.mem_filter, decide_eq_true_iff] at hown
    exact hown.2
  · intro h
    have hnodup : c.bodyFields.Nodup := c.nodup_structFields.sublist (List.take_sublist _ _)
    have hsub : c.bodyFields ⊆ c.ownFields := fun f hf =>
      List.mem_filter.2 ⟨List.mem_of_mem_take hf, decide_eq_true (h f hf)⟩
    -- there are as many of them as own ones
    have hperm := (List.subperm_of_subset hnodup hsub).perm_of_length_le c.length_ownFields.le
    exact fun f => hperm.mem_iff

/-- All but the last three fields are no base fields exactly when no own field stands behind one of these. -/
theorem ownFirst_iff (c : StructClass) : c.OwnFirst ↔ ∀ f ∈ c.bodyFields, f ∉ BASE_FIELDS := by
  have hsplit := List.take_append_drop (c.structFields.length - BASE_FIELDS.length) c.structFields
  have hnodup := c.nodup_structFields
  have hlen : (c.structFields.drop (c.structFields.length - BASE_FIELDS.length)).length = BASE_FIELDS.length := by
    have hle := (List.subperm_of_subset (by decide) c.base_subset_structFields).length_le
    rw [List.length_drop]
    omega
  rw [OwnFirst, bodyFields]
  generalize c.structFields.take _ = body, c.structFields.drop _ = last at hsplit hlen ⊢
  rw [← hsplit] at hnodup ⊢
  rw [List.nodup_append] at hnodup
  rw [List.pairwise_append]
  constructor
  · rintro ⟨-, -, hcross⟩ f hf hbase
    -- with the last three there would be four base fields
    have hnodup' : (f :: last).Nodup := List.nodup_cons.2 ⟨fun hmem => hnodup.2.2 f hf f hmem rfl, hnodup.2.1⟩
    have hsub : f :: last ⊆ BASE_FIELDS := List.cons_subset.2 ⟨hbase, fun g hg => hcross f hf g hg hbase⟩
    have hle := (List.subperm_of_subset hnodup' hsub).length_le
    rw [List.length_cons] at hle
    omega
  · intro hbody
    have hsub : BASE_FIELDS ⊆ last := by
      intro f hf
      have hmem := c.base_subset_structFields hf
      rw [← hsplit, List.mem_append] at hmem
      exact hmem.resolve_left fun hin => hbody f hin hf
    have hperm := (List.subperm_of_subset (by decide) hsub).perm_of_length_le hlen.le
    have hlast : ∀ g ∈ last, g ∈ BASE_FIELDS := fun g hg => hperm.mem_iff.2 hg
    refine ⟨List.pairwise_of_forall_mem_list fun f hf _ _ hbase => absurd hbase (hbody f hf),
      List.pairwise_of_forall_mem_list fun _ _ g hg _ => hlast g hg, fun f hf _ _ hbase => absurd hbase (hbody f hf)⟩

/-! ### Classes in which no field is declared again -/

end StructClass

/-! ### The normalized event -/

namespace MsgSpecEvent

variable {c : StructClass}

theorem get?_event_body (e : MsgSpecEvent c) :
    e.normalized.get? "event_body" =
      some (.obj (e.fields.pick c.bodyFields)) := by
  simp [normalized, Dict.get?_set, StructClass.bodyFields]

/-- The base fields are at top level in every class. -/
theorem get?_normalized (e : MsgSpecEvent c) {f : String} (hf : f ∈ BASE_FIELDS) :
    ∃ v, e.fields.get? f = some v ∧ e.normalized.get? f = some v := by
  obtain ⟨v, hv⟩ := Option.isSome_iff_exists.1 ((e.complete f).2 (c.base_subset_structFields hf))
  refine ⟨v, hv, ?_⟩
  have hpick := e.fields.lastOf_pick hf
  rw [hv] at hpick
  simp only [BASE_FIELDS, List.mem_cons, List.not_mem_nil, or_false] at hf
  unfold normalized
  rcases hf with rfl | rfl | rfl <;> simp [Dict.get?_set, Dict.get?_update, hpick]

/-- For every class below `MsgSpecEvent` and every instance: the normalized event has the base fields at top level and
exactly the others in its body, exactly when none of the others stands behind a base field in `__struct_fields__`. -/
theorem normalized_exact_iff (c : StructClass) (e : MsgSpecEvent c) : e.Exact ↔ c.OwnFirst := by
  rw [c.ownFirst_iff, ← c.bodyFields_iff]
  have hvalue : ∀ f ∈ c.structFields, ∃ v, e.fields.get? f = some v := fun f hf =>
    Option.isSome_iff_exists.1 ((e.complete f).2 hf)
  constructor
  · rintro ⟨-, kvs, hkvs, hmem⟩ f
    rw [get?_event_body] at hkvs
    cases hkvs
    constructor
    · intro hf
      obtain ⟨v, hv⟩ := hvalue f (List.mem_of_mem_take hf)
      exact ((hmem f v).1 (Dict.mem_pick.2 ⟨hf, hv⟩)).1
    · intro hf
      obtain ⟨v, hv⟩ := hvalue f (List.mem_of_mem_filter hf)
      exact (Dict.mem_pick.1 ((hmem f v).2 ⟨hf, hv⟩)).1
  · intro h
    refine ⟨fun f hf => e.get?_normalized hf, _, e.get?_event_body, fun f v => ?_⟩
    rw [Dict.mem_pick, h]

/-- With `event_id` declared again as positional, the own field still stands in front. -/
example : (⟨"demo.todo", "TodoMoved", "demo", "1", [⟨false, ["title"]⟩, ⟨false, ["event_id"]⟩]⟩ :
    StructClass).structFields = ["title", "event_id", "entity_id", "timestamp"] := by decide

end MsgSpecEvent

/-! ### A keyword-only level -/

namespace TodoApp

/-- `class TodoCreated(MsgSpecEvent, kw_only=True)` with a field `title`. -/
def keywordTodo : StructClass := ⟨"demo.todo", "TodoCreated", "demo", "1", [⟨true, ["title"]⟩]⟩

/-- The body holds `entity_id`, and the title is lost. -/
theorem keyword_title_lost :
    (MsgSpecEvent.ofFields keywordTodo .str).normalized.get? "event_body" =
        some (.obj [("entity_id", .str "entity_id")]) ∧
      keywordTodo.ownFields = ["title"] ∧ ¬ (MsgSpecEvent.ofFields keywordTodo .str).Exact := by
  have hown : keywordTodo.ownFields = ["title"] := by decide
  refine ⟨rfl, hown, ?_⟩
  rintro ⟨-, kvs, hkvs, hmem⟩
  cases hkvs
  have hbody := ((hmem "entity_id" (.str "entity_id")).1 List.mem_cons_self).1
  rw [hown] at hbody
  exact absurd hbody (by decide)

end TodoApp

end Anywise.Messages
