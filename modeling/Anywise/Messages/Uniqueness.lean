import Anywise.Lib.Firsts
import Anywise.Messages.EventStore

/-!
# Events that are added again

The column `event_id` is unique, so the database refuses a row whose event id it has: `add` raises and the table stays
as it was.  However often events are added again, the table holds each event once, where it was added first, and the
histories are read without duplicates (`stored_once`).
-/

namespace Anywise.Messages

section Store

variable {E : Type} (m : EventModel E)

/-- The rows after an attempt to add the event; if `add` raises they are as before. -/
def attempt (rows : List Row) (p : Generated × E) : List Row :=
  match add m rows p.1 p.2 with
  | .ok rows => rows
  | .error _ => rows

/-- The rows after attempts to add events, one after another. -/
def attemptAll (rows : List Row) (attempts : List (Generated × E)) : List Row := attempts.foldl (attempt m) rows

/-- The events have the given ids, and the columns can hold their values. -/
structure Identified (eventId : E → String) (events : List (Generated × E)) : Prop where
  eventId : ∀ p ∈ events, (m.normalized p.2).get? "event_id" = some (.str (eventId p.2))
  fits : ∀ p ∈ events, ∀ c ∈ EventTable.columns, EventTable.fits c (EventTable.value (m.normalized p.2) c) = true

end Store

variable {E : Type} {m : EventModel E} {eventId : E → String}

/-! ### Event ids in the table -/

theorem text_row {g : Generated} {mapping : Dict String Json} {c s : String} (hc : c ∈ EventTable.columns)
    (hs : mapping.get? c = some (.str s)) : EventTable.text (EventTable.row g mapping) c = some s := by
  rw [EventTable.text, get?_row g mapping hc, hs]
  rfl

/-- Among rows of identified events, the id of an event is there when one of them has it. -/
theorem hasEventId_iff {stored : List (Generated × E)} {p : Generated × E}
    (hids : ∀ q ∈ p :: stored, (m.normalized q.2).get? "event_id" = some (.str (eventId q.2))) :
    EventTable.hasEventId (addAll m stored) (EventTable.row p.1 (m.normalized p.2)) = true ↔
      eventId p.2 ∈ stored.map fun q => eventId q.2 := by
  have htext : ∀ q ∈ p :: stored,
      EventTable.text (EventTable.row q.1 (m.normalized q.2)) "event_id" = some (eventId q.2) :=
    fun q hq => text_row (by decide) (hids q hq)
  rw [EventTable.hasEventId, htext p List.mem_cons_self]
  simp only [List.any_eq_true, decide_eq_true_eq, addAll, List.mem_map, exists_exists_and_eq_and]
  constructor
  · rintro ⟨q, hq, heq⟩
    rw [htext q (List.mem_cons_of_mem p hq), Option.some.injEq] at heq
    exact ⟨q, hq, heq⟩
  · rintro ⟨q, hq, heq⟩
    exact ⟨q, hq, by rw [htext q (List.mem_cons_of_mem p hq), heq]⟩

/-- An identified event is added exactly when its id is new. -/
theorem add_identified {stored : List (Generated × E)} {p : Generated × E} (hp : Identified m eventId [p])
    (hstored : ∀ q ∈ stored, (m.normalized q.2).get? "event_id" = some (.str (eventId q.2))) :
    (eventId p.2 ∉ stored.map (fun q => eventId q.2) →
      add m (addAll m stored) p.1 p.2 = .ok (addAll m (stored ++ [p]))) ∧
    (eventId p.2 ∈ stored.map (fun q => eventId q.2) → ∃ e, add m (addAll m stored) p.1 p.2 = .error e) := by
  have hids := hasEventId_iff (List.forall_mem_cons.2 ⟨hp.eventId p List.mem_cons_self, hstored⟩)
  constructor
  · intro hnew
    refine add_eq_ok.2 ⟨hp.fits p List.mem_cons_self, Bool.eq_false_iff.2 (mt hids.1 hnew), ?_⟩
    rw [addAll, List.map_append]
    rfl
  · intro hold
    cases hadd : add m (addAll m stored) p.1 p.2 with
    | error e => exact ⟨e, rfl⟩
    | ok rows =>
      rw [(add_eq_ok.1 hadd).2.1] at hids
      exact absurd (hids.2 hold) Bool.false_ne_true

/-! ### Attempts -/

theorem Identified.subset {events events' : List (Generated × E)} (h : Identified m eventId events)
    (hsub : ∀ p ∈ events', p ∈ events) : Identified m eventId events' where
  eventId p hp := h.eventId p (hsub p hp)
  fits p hp := h.fits p (hsub p hp)

theorem Identified.append {events events' : List (Generated × E)} (h : Identified m eventId events)
    (h' : Identified m eventId events') : Identified m eventId (events ++ events') where
  eventId p hp := (List.mem_append.1 hp).elim (h.eventId p) (h'.eventId p)
  fits p hp := (List.mem_append.1 hp).elim (h.fits p) (h'.fits p)

/-- The table takes each event id once. -/
theorem attemptAll_eq {attempts : List (Generated × E)} (h : Identified m eventId attempts) :
    attemptAll m [] attempts = addAll m (Firsts.firsts (fun p => eventId p.2) attempts) := by
  induction attempts using List.reverseRecOn with
  | nil => rfl
  | append_singleton attempts p ih =>
    have hbefore : Identified m eventId attempts := h.subset fun q hq => List.mem_append_left _ hq
    have hlast : Identified m eventId [p] := h.subset fun q hq => List.mem_append_right _ hq
    have hsub : (Firsts.firsts (fun p => eventId p.2) attempts).Sublist attempts := Firsts.firstsFrom_sublist _ _
    have hadd := add_identified hlast fun q hq => hbefore.eventId q (hsub.mem hq)
    have hattempt : attemptAll m [] (attempts ++ [p]) = attempt m (attemptAll m [] attempts) p := by
      rw [attemptAll, attemptAll, List.foldl_append]
      rfl
    rw [hattempt, ih hbefore, Firsts.firsts_concat, attempt]
    by_cases hmem : eventId p.2 ∈ attempts.map fun p => eventId p.2
    · -- the id is there, and the row refused
      obtain ⟨e, he⟩ := hadd.2 (Firsts.mem_keys_firsts.2 hmem)
      rw [he, if_pos hmem]
    · rw [hadd.1 (mt Firsts.mem_keys_firsts.1 hmem), if_neg hmem]

/-- However often events are added, the table holds the first event of each event id, in the order in which these were
first added, and `list_events` returns them.  To add any of them again raises and changes nothing. -/
theorem stored_once (m : EventModel E) (eventId : E → String) (attempts : List (Generated × E))
    (hids : Identified m eventId attempts) (hdec : Decodes m attempts) :
    attemptAll m [] attempts = addAll m (Firsts.firsts (fun p => eventId p.2) attempts) ∧
    ((Firsts.firsts (fun p => eventId p.2) attempts).map fun p => eventId p.2).Nodup ∧
    (∀ p ∈ attempts, ∃ q ∈ Firsts.firsts (fun p => eventId p.2) attempts, eventId q.2 = eventId p.2) ∧
    (∀ i, listEvents m (attemptAll m [] attempts) i =
      .ok (((Firsts.firsts (fun p => eventId p.2) attempts).map Prod.snd).filter fun e => m.entityId e == i)) ∧
    ∀ again, Identified m eventId again →
      (∀ p ∈ again, eventId p.2 ∈ attempts.map fun p => eventId p.2) →
        attemptAll m (attemptAll m [] attempts) again = attemptAll m [] attempts ∧
          ∀ p ∈ again, ∃ e, add m (attemptAll m [] attempts) p.1 p.2 = .error e := by
  have hrows := attemptAll_eq hids
  have hsub : (Firsts.firsts (fun p => eventId p.2) attempts).Sublist attempts := Firsts.firstsFrom_sublist _ _
  refine ⟨hrows, Firsts.nodup_keys_firstsFrom _ _, ?_, ?_, ?_⟩
  · intro p hp
    have hmem : eventId p.2 ∈ (Firsts.firsts (fun p => eventId p.2) attempts).map fun p => eventId p.2 :=
      Firsts.mem_keys_firsts.2 (List.mem_map.2 ⟨p, hp, rfl⟩)
    exact List.mem_map.1 hmem
  · intro i
    have hstored : Decodes m (Firsts.firsts (fun p => eventId p.2) attempts) :=
      ⟨fun p hp => hdec.decodes p (hsub.mem hp), fun p hp => hdec.entityId p (hsub.mem hp)⟩
    rw [hrows]
    exact listEvents_eq hstored i
  · intro again hagain hmem
    refine ⟨?_, fun p hp => ?_⟩
    · have happend : attemptAll m (attemptAll m [] attempts) again = attemptAll m [] (attempts ++ again) := by
        rw [attemptAll, attemptAll, attemptAll, List.foldl_append]
      rw [happend, attemptAll_eq (hids.append hagain), Firsts.firsts_append_repeated hmem, hrows]
    · have hone : Identified m eventId [p] := hagain.subset fun q hq => by rwa [List.mem_singleton.1 hq]
      rw [hrows]
      exact (add_identified hone fun q hq => hids.eventId q (hsub.mem hq)).2
        (Firsts.mem_keys_firsts.2 (hmem p hp))

/-! ### A todo event that is added twice -/

namespace TodoApp

def eventIdOf (e : Event (created []).types) : String :=
  match e.fields.get? "event_id" with
  | some (.str s) => s
  | _ => ""

theorem identified_history (todos : List (String × String)) : Identified todoEvents eventIdOf (history todos) where
  eventId p hp := by
    obtain ⟨q, -, rfl⟩ := List.mem_map.1 hp
    have hget : (todoEvent q.1 q.2).fields.get? "event_id" = some (.str q.2) := Event.get?_ofFields 5 _ (by decide)
    have hid : eventIdOf (todoEvent q.1 q.2) = q.2 := by rw [eventIdOf, hget]
    rw [hid]
    exact (Event.get?_normalized _ (by decide)).trans hget
  fits p hp := by
    obtain ⟨q, -, rfl⟩ := List.mem_map.1 hp
    refine (todoEvent q.1 q.2).fits_iff.1 fun f hf => ?_
    have hfield : f ∈ ((created []).types.classes 5).fields := by
      rw [EventClass.fields_eq]
      exact List.mem_append_left _ hf
    have hget : (todoEvent q.1 q.2).fields.get? f = some (.str (if f = "entity_id" then q.1 else q.2)) :=
      Event.get?_ofFields 5 _ hfield
    rw [hget]
    rfl

/-- The first event of a todo is added again after the second one. -/
theorem repeated_refused :
    attemptAll todoEvents (attemptAll todoEvents [] (history [("a", "1"), ("a", "2")])) (history [("a", "1")]) =
      addAll todoEvents (history [("a", "1"), ("a", "2")]) := by
  obtain ⟨hstored, -, -, -, hagain⟩ := stored_once todoEvents eventIdOf (history [("a", "1"), ("a", "2")])
    (identified_history _) (decodes_history _)
  have hfirsts : Firsts.firsts (fun p => eventIdOf p.2) (history [("a", "1"), ("a", "2")]) =
      history [("a", "1"), ("a", "2")] := rfl
  rw [hfirsts] at hstored
  refine (hagain (history [("a", "1")]) (identified_history _) fun p hp => ?_).1.trans hstored
  rw [history, List.map_singleton, List.mem_singleton] at hp
  subst hp
  exact List.mem_cons_self

end TodoApp

end Anywise.Messages
