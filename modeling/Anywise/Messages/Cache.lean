import Anywise.Messages.Model

/-!
# The history of `get_event_cls`

The registry of `get_event_cls` knows ids only: a class that was filed by a lookup under one base is found by a lookup
under any other.  The answer of a lookup is therefore right exactly when the registry holds nothing for the id, or
holds a strict subclass of the base asked for (`EventState.lookups_iff`); what it holds are the classes that earlier
lookups have filed (`EventState.cachedBelow_iff`).
-/

namespace Anywise.Messages

/-! ### What a lookup should answer -/

namespace EventTypes

/-- No two event classes have the same id. -/
def DistinctIds (t : EventTypes) : Prop :=
  ∀ c d, pydanticEvent ≤ c → c < t.graph.size → pydanticEvent ≤ d → d < t.graph.size →
    (t.classes c).typeId = (t.classes d).typeId → c = d

/-- The strict subclass of `base` with the id, and `UnregisteredEventError` when there is none. -/
def Answers (t : EventTypes) (id : String) (base : Cls) (res : Except PyErr Cls) : Prop :=
  (∀ c, Relation.TransGen t.graph.DirectSub c base → (t.classes c).typeId = id → res = .ok c) ∧
    (res = .error (.unregisteredEvent id) ↔
      ∀ c, Relation.TransGen t.graph.DirectSub c base → (t.classes c).typeId ≠ id)

/-- The class is one of the event classes, and has the id. -/
def HasId (t : EventTypes) (id : String) (c : Cls) : Prop :=
  pydanticEvent ≤ c ∧ c < t.graph.size ∧ (t.classes c).typeId = id

section

variable {t : EventTypes} {c b : Cls} {id : String}

theorem HasId.define (h : t.HasId id c) (bases : List Cls) (e : EventClass) : (t.define bases e).HasId id c := by
  obtain ⟨hc, hlt, hid⟩ := h
  unfold EventTypes.define
  split
  · rename_i hd
    refine ⟨hc, ?_, ?_⟩
    · show c < (t.graph.define bases).size
      rw [ClassGraph.size_define, if_pos hd.1]
      exact Nat.lt_succ_of_lt hlt
    · show (Function.update t.classes t.graph.size e c).typeId = id
      rw [Function.update_of_ne (Nat.ne_of_lt hlt), hid]
  · exact ⟨hc, hlt, hid⟩

/-- The builtin classes derive from `object` only. -/
theorem builtin_base (hc : c < pydanticEvent) (h : t.graph.DirectSub c b) : b = Cls.object := by
  obtain ⟨bs, hbs, hb⟩ := t.graph.directSub_iff.1 h
  obtain ⟨user, huser⟩ := t.graph.builtins
  have hlt : c < [[], [Cls.object], [Cls.object], [Cls.object]].length := hc
  rw [← huser, List.getElem?_append_left hlt] at hbs
  rcases c with _ | _ | _ | _ | c
  · cases hbs
    cases hb
  · cases hbs
    exact List.mem_singleton.1 hb
  · cases hbs
    exact List.mem_singleton.1 hb
  · cases hbs
    exact List.mem_singleton.1 hb
  · cases hbs

/-- A lookup that asks for the subclasses of a class and gets some has asked for those of an event class. -/
theorem le_of_found {subs : List Cls} (hsubs : allSubclasses t.graph b = .ok subs)
    (h : Relation.TransGen t.graph.DirectSub c b) : pydanticEvent ≤ b := by
  obtain ⟨d, -, hdb⟩ := Relation.TransGen.tail'_iff.1 h
  have hbase : b = Cls.object ∨ pydanticEvent ≤ b := by
    rcases Nat.lt_or_ge d pydanticEvent with hd | hd
    · exact Or.inl (builtin_base hd hdb)
    · exact t.proper d b hd hdb
  rcases hbase with rfl | hb
  · -- `type` is among the subclasses of `object`
    exact absurd Relation.ReflTransGen.refl
      (allSubclasses_ok_iff.1 ⟨subs, hsubs⟩ Cls.type (.single t.graph.type_sub_object))
  · exact hb

theorem lt_of_strict (h : Relation.TransGen t.graph.DirectSub c b) : b < c ∧ c < t.graph.size := by
  obtain ⟨d, hcd, hdb⟩ := Relation.TransGen.head'_iff.1 h
  have hlt := t.graph.lt_of_directSub hcd
  exact ⟨(t.graph.le_of_sub hdb).trans_lt hlt.1, hlt.2⟩

end

end EventTypes

/-! ### What the registry holds after any lookups -/

/-- Each id leads to an event class that has it. -/
def FiledAny (t : EventTypes) (registry : Dict String Cls) : Prop := ∀ id c, registry.get? id = some c → t.HasId id c

section

variable {t : EventTypes} {registry : Dict String Cls}

theorem FiledAny.define (h : FiledAny t registry) (bases : List Cls) (e : EventClass) :
    FiledAny (t.define bases e) registry := fun id c hc => (h id c hc).define bases e

/-- A lookup under any base files classes under their ids. -/
theorem FiledAny.getEventCls (h : FiledAny t registry) (ord : SetOrder) (id : String) (eventCls : Cls) :
    FiledAny t (getEventCls t ord registry id eventCls).1 := by
  intro id' c hc
  rcases get?_getEventCls hc with hc | ⟨subs, hsubs, hsub, hid⟩
  · exact h id' c hc
  · have hlt := EventTypes.lt_of_strict hsub
    exact ⟨(EventTypes.le_of_found hsubs hsub).trans (Nat.le_of_lt hlt.1), hlt.2, hid⟩

/-- A lookup that misses the registry answers from the classes. -/
theorem getEventCls_miss (hids : t.DistinctIds) (ord : SetOrder) {id : String} {base : Cls}
    (hbase : pydanticEvent ≤ base) (hmiss : registry.get? id = none) :
    t.Answers id base (getEventCls t ord registry id base).2 := by
  obtain ⟨subs, hsubs⟩ := t.allSubclasses_ok hbase
  have hmem : ∀ c, c ∈ subs ↔ Relation.TransGen t.graph.DirectSub c base := fun c => Anywise.mem_allSubclasses hsubs
  have hres : (getEventCls t ord registry id base).2 =
      (Dict.lastOf id ((ord.iter subs).map fun c => ((t.classes c).typeId, c))).elim
        (.error (.unregisteredEvent id)) .ok := by
    unfold getEventCls
    rw [hsubs, hmiss]
    simp only [get?_refill, hmiss, Option.or_none]
    cases Dict.lastOf id ((ord.iter subs).map fun c => ((t.classes c).typeId, c)) <;> rfl
  rw [hres]
  cases hlast : Dict.lastOf id ((ord.iter subs).map fun c => ((t.classes c).typeId, c)) with
  | none =>
    have hno : ∀ c, Relation.TransGen t.graph.DirectSub c base → (t.classes c).typeId ≠ id := by
      intro c hc hid
      have hsome : (Dict.lastOf id ((ord.iter subs).map fun c => ((t.classes c).typeId, c))).isSome :=
        Dict.lastOf_isSome.2 ⟨c, List.mem_map.2 ⟨c, ord.mem_iter.2 ((hmem c).2 hc), by rw [hid]⟩⟩
      rw [hlast] at hsome
      cases hsome
    exact ⟨fun c hc hid => absurd hid (hno c hc), iff_of_true rfl hno⟩
  | some d =>
    obtain ⟨hd, hid⟩ := lastOf_typeId hlast
    have hsub := (hmem d).1 (ord.mem_iter.1 hd)
    have hlt := EventTypes.lt_of_strict hsub
    refine ⟨fun c hc hcid => ?_, iff_of_false (by simp) fun hno => hno d hsub hid⟩
    -- no other class has the id
    have hclt := EventTypes.lt_of_strict hc
    rw [hids c d (hbase.trans (Nat.le_of_lt hclt.1)) hclt.2 (hbase.trans (Nat.le_of_lt hlt.1)) hlt.2
      (hcid.trans hid.symm)]
    rfl

/-- A lookup that finds a class in the registry is right exactly if this is a strict subclass of the base. -/
theorem getEventCls_hit (hids : t.DistinctIds) (hfiled : FiledAny t registry) (ord : SetOrder) {id : String}
    {base c : Cls} (hbase : pydanticEvent ≤ base) (hhit : registry.get? id = some c) :
    (getEventCls t ord registry id base).2 = .ok c ∧
      (t.Answers id base (getEventCls t ord registry id base).2 ↔ Relation.TransGen t.graph.DirectSub c base) := by
  obtain ⟨hc, hlt, hid⟩ := hfiled id c hhit
  have hres : (getEventCls t ord registry id base).2 = .ok c := by
    unfold getEventCls
    rw [hhit]
  have honly : ∀ d, Relation.TransGen t.graph.DirectSub d base → (t.classes d).typeId = id → d = c := by
    intro d hd hdid
    have hdlt := EventTypes.lt_of_strict hd
    exact hids d c (hbase.trans (Nat.le_of_lt hdlt.1)) hdlt.2 hc hlt (hdid.trans hid.symm)
  refine ⟨hres, ?_⟩
  rw [hres]
  constructor
  · rintro ⟨-, hnone⟩
    by_contra hsub
    -- no strict subclass has the id, and yet a class is returned
    have hno : ∀ d, Relation.TransGen t.graph.DirectSub d base → (t.classes d).typeId ≠ id :=
      fun d hd hdid => hsub (honly d hd hdid ▸ hd)
    cases hnone.2 hno
  · intro hsub
    refine ⟨fun d hd hdid => by rw [honly d hd hdid], iff_of_false (by simp) fun hno => hno c hsub hid⟩

/-- A lookup is right exactly if the registry holds nothing for the id but strict subclasses of the base. -/
theorem getEventCls_answers_iff (hids : t.DistinctIds) (hfiled : FiledAny t registry) (ord : SetOrder) {id : String}
    {base : Cls} (hbase : pydanticEvent ≤ base) :
    t.Answers id base (getEventCls t ord registry id base).2 ↔
      ∀ c, registry.get? id = some c → Relation.TransGen t.graph.DirectSub c base := by
  cases hget : registry.get? id with
  | none => exact iff_of_true (getEventCls_miss hids ord hbase hget) fun c hc => by cases hc
  | some c =>
    rw [(getEventCls_hit hids hfiled ord hbase hget).2]
    simp

/-- There is one right answer. -/
theorem EventTypes.Answers.unique {id : String} {base : Cls} {r r' : Except PyErr Cls} (h : t.Answers id base r)
    (h' : t.Answers id base r') : r = r' := by
  by_cases hex : ∃ c, Relation.TransGen t.graph.DirectSub c base ∧ (t.classes c).typeId = id
  · obtain ⟨c, hc, hid⟩ := hex
    rw [h.1 c hc hid, h'.1 c hc hid]
  · have hno : ∀ c, Relation.TransGen t.graph.DirectSub c base → (t.classes c).typeId ≠ id :=
      fun c hc hid => hex ⟨c, hc, hid⟩
    rw [h.2.2 hno, h'.2.2 hno]

end

/-! ### Runs -/

namespace EventState

/-- The class definitions of a run. -/
def definitions (acts : List EventAct) : List EventAct :=
  acts.filter fun
    | .define _ _ => true
    | .getEventCls _ _ _ => false

/-- The registry holds nothing for the id but strict subclasses of the base. -/
def CachedBelow (s : EventState) (id : String) (base : Cls) : Prop :=
  ∀ c, s.registry.get? id = some c → Relation.TransGen s.types.graph.DirectSub c base

section

variable {s s' u u' : EventState}

theorem filedAny_run {acts : List EventAct} (hs : FiledAny s.types s.registry)
    (hrun : Run.run step s acts = some s') : FiledAny s'.types s'.registry := by
  refine Run.preserved (I := fun s => FiledAny s.types s.registry) (fun s a s' hs hstep => ?_) hs hrun
  rcases step_cases hstep with ⟨bases, e, rfl, -, rfl⟩ | ⟨ord, id, eventCls, rfl, rfl⟩
  · exact hs.define bases e
  · exact hs.getEventCls ord id eventCls

/-- The definitions alone lead to the same classes. -/
theorem run_definitions_types {acts : List EventAct} (hrun : Run.run step s acts = some s') (hu : u.types = s.types) :
    ∃ u', Run.run step u (definitions acts) = some u' ∧ u'.types = s'.types := by
  induction acts generalizing s u with
  | nil =>
    cases hrun
    exact ⟨u, rfl, hu⟩
  | cons a acts ih =>
    obtain ⟨v, hv, hrun⟩ := Run.run_cons.1 hrun
    rcases step_cases hv with ⟨bases, e, rfl, hd, rfl⟩ | ⟨ord, id, eventCls, rfl, rfl⟩
    · rw [← hu] at hd
      obtain ⟨u', hrun', htypes⟩ := ih (u := ⟨u.types.define bases e, u.registry⟩) hrun (by rw [hu])
      refine ⟨u', Run.run_cons.2 ⟨_, ?_, hrun'⟩, htypes⟩
      simp only [step, if_pos hd]
    · exact ih hrun hu

theorem types_eq {acts acts' : List EventAct} (hrun : Run.run step s acts = some u)
    (hrun' : Run.run step s acts' = some u') (h : definitions acts = definitions acts') : u.types = u'.types := by
  obtain ⟨v, hv, htypes⟩ := run_definitions_types hrun rfl
  obtain ⟨v', hv', htypes'⟩ := run_definitions_types hrun' rfl
  rw [h, hv'] at hv
  cases hv
  exact htypes.symm.trans htypes'

end

/-- After every run of class definitions and lookups under any bases, the ids of the classes being distinct: a lookup
answers with the strict subclass of its base that has the id, and raises where there is none, exactly when the
registry holds nothing for the id or a strict subclass of the base.  A run with the same definitions and other lookups
leads to the same answer exactly when this holds after both runs or after neither. -/
theorem lookups_iff (acts : List EventAct) (s : EventState) (hrun : Run.run step new acts = some s)
    (hids : s.types.DistinctIds) (id : String) (base : Cls) (hbase : pydanticEvent ≤ base) :
    (∀ ord, s.types.Answers id base (getEventCls s.types ord s.registry id base).2 ↔ s.CachedBelow id base) ∧
    ∀ acts' s' ord ord', Run.run step new acts' = some s' → definitions acts' = definitions acts →
      ((getEventCls s.types ord s.registry id base).2 = (getEventCls s'.types ord' s'.registry id base).2 ↔
        (s.CachedBelow id base ↔ s'.CachedBelow id base)) := by
  have hempty : FiledAny new.types new.registry := fun id c h => by simp [new] at h
  have hfiled := filedAny_run hempty hrun
  refine ⟨fun ord => getEventCls_answers_iff hids hfiled ord hbase, fun acts' s' ord ord' hrun' hdefs => ?_⟩
  have htypes : s'.types = s.types := types_eq hrun' hrun hdefs
  have hfiled' := filedAny_run hempty hrun'
  rw [htypes] at hfiled' ⊢
  have h : s.types.Answers id base (getEventCls s.types ord s.registry id base).2 ↔ s.CachedBelow id base :=
    getEventCls_answers_iff hids hfiled ord hbase
  have h' : s.types.Answers id base (getEventCls s.types ord' s'.registry id base).2 ↔ s'.CachedBelow id base := by
    rw [getEventCls_answers_iff hids hfiled' ord' hbase, CachedBelow, htypes]
  constructor
  · intro heq
    rw [heq] at h
    exact h.symm.trans h'
  · intro hsame
    by_cases hs : s.CachedBelow id base
    · exact (h.2 hs).unique (h'.2 (hsame.1 hs))
    · -- both registries hold the one class with the id
      have hwrong : ∀ u : EventState, ¬ u.CachedBelow id base → ∃ c, u.registry.get? id = some c := by
        intro u hu
        cases hget : u.registry.get? id with
        | none => exact absurd (fun c hc => by rw [hget] at hc; cases hc) hu
        | some c => exact ⟨c, rfl⟩
      obtain ⟨c, hc⟩ := hwrong s hs
      obtain ⟨c', hc'⟩ := hwrong s' fun hs' => hs (hsame.2 hs')
      obtain ⟨hle, hlt, hid⟩ := hfiled id c hc
      obtain ⟨hle', hlt', hid'⟩ := hfiled' id c' hc'
      rw [(getEventCls_hit hids hfiled ord hbase hc).1, (getEventCls_hit hids hfiled' ord' hbase hc').1,
        hids c c' hle hlt hle' hlt' (hid.trans hid'.symm)]

/-! ### Which lookups file a class -/

/-- A lookup of the run has missed the registry and filed the class, a strict subclass of its base. -/
def Files (acts : List EventAct) (c : Cls) : Prop :=
  ∃ (acts₁ acts₂ : List EventAct) (ord : SetOrder) (id : String) (base : Cls) (t : EventState) (subs : List Cls),
    acts = acts₁ ++ .getEventCls ord id base :: acts₂ ∧ Run.run step new acts₁ = some t ∧
      t.registry.get? id = none ∧ allSubclasses t.types.graph base = .ok subs ∧
        Relation.TransGen t.types.graph.DirectSub c base

/-- What is in the registry after a lookup was there before, or the lookup has missed and filed it. -/
theorem get?_lookup {t : EventState} {ord : SetOrder} {id id' : String} {base c : Cls}
    (h : (getEventCls t.types ord t.registry id base).1.get? id' = some c) :
    t.registry.get? id' = some c ∨ t.registry.get? id = none ∧ ∃ subs,
      allSubclasses t.types.graph base = .ok subs ∧ Relation.TransGen t.types.graph.DirectSub c base := by
  cases hid : t.registry.get? id with
  | some d =>
    unfold getEventCls at h
    rw [hid] at h
    exact Or.inl h
  | none =>
    rcases get?_getEventCls h with hc | ⟨subs, hsubs, hsub, -⟩
    · exact Or.inl hc
    · exact Or.inr ⟨rfl, subs, hsubs, hsub⟩

/-- What is in the registry, or is filed by the lookup, is there afterwards. -/
theorem isSome_lookup {t : EventState} (ord : SetOrder) {id id' : String} {base : Cls}
    (h : (t.registry.get? id').isSome ∨ t.registry.get? id = none ∧ ∃ c subs,
      allSubclasses t.types.graph base = .ok subs ∧ Relation.TransGen t.types.graph.DirectSub c base ∧
        (t.types.classes c).typeId = id') :
    ((getEventCls t.types ord t.registry id base).1.get? id').isSome := by
  have hkept : (t.registry.get? id').isSome →
      ∀ d : Option Cls, (d.or (t.registry.get? id')).isSome := fun h d => by simp [h]
  unfold getEventCls
  split
  · rename_i d hd
    exact h.resolve_right fun hmiss => by simp [hd] at hmiss
  · split
    · rename_i e he
      refine h.resolve_right ?_
      rintro ⟨-, c, subs, hsubs, -⟩
      rw [he] at hsubs
      cases hsubs
    · rename_i subs hsubs
      have hfiled : ((t.registry.update (Dict.empty.update
          ((ord.iter subs).map fun c => ((t.types.classes c).typeId, c)) : Dict String Cls).items).get? id').isSome := by
        rw [get?_refill]
        rcases h with h | ⟨-, c, subs', hsubs', hsub, rfl⟩
        · exact hkept h _
        · obtain rfl : subs = subs' := Except.ok.inj (hsubs.symm.trans hsubs')
          have hlast : (Dict.lastOf (t.types.classes c).typeId
              ((ord.iter subs).map fun c => ((t.types.classes c).typeId, c))).isSome :=
            Dict.lastOf_isSome.2
              ⟨c, List.mem_map.2 ⟨c, ord.mem_iter.2 ((Anywise.mem_allSubclasses hsubs).2 hsub), rfl⟩⟩
          simp [hlast]
      dsimp only
      split <;> exact hfiled

section

variable {acts : List EventAct} {s s' : EventState} {id : String} {c : Cls}

theorem files_of_cached (hrun : Run.run step new acts = some s) (hc : s.registry.get? id = some c) :
    Files acts c := by
  induction acts using List.reverseRecOn generalizing s with
  | nil =>
    cases hrun
    cases hc
  | append_singleton acts a ih =>
    have hmore : Files acts c → Files (acts ++ [a]) c := by
      rintro ⟨acts₁, acts₂, ord, id', base, t, subs, rfl, h⟩
      exact ⟨acts₁, acts₂ ++ [a], ord, id', base, t, subs, by simp, h⟩
    obtain ⟨t, ht, hstep⟩ := Run.run_append.1 hrun
    obtain ⟨s', hstep, hs'⟩ := Run.run_cons.1 hstep
    cases hs'
    rcases step_cases hstep with ⟨bases, e, rfl, -, rfl⟩ | ⟨ord, id', base, rfl, rfl⟩
    · exact hmore (ih ht hc)
    · rcases get?_lookup hc with hc | ⟨hmiss, subs, hsubs, hsub⟩
      · exact hmore (ih ht hc)
      · exact ⟨acts, [], ord, id', base, t, subs, rfl, ht, hmiss, hsubs, hsub⟩

theorem hasId_run (h : s.types.HasId id c) (hrun : Run.run step s acts = some s') : s'.types.HasId id c := by
  refine Run.preserved (I := fun s => s.types.HasId id c) (fun s a s' hs hstep => ?_) h hrun
  rcases step_cases hstep with ⟨bases, e, rfl, -, rfl⟩ | ⟨_, _, _, rfl, rfl⟩
  · exact hs.define bases e
  · exact hs

theorem isSome_run (h : (s.registry.get? id).isSome) (hrun : Run.run step s acts = some s') :
    (s'.registry.get? id).isSome := by
  refine Run.preserved (I := fun s => (s.registry.get? id).isSome) (fun s a s' hs hstep => ?_) h hrun
  rcases step_cases hstep with ⟨bases, e, rfl, -, rfl⟩ | ⟨ord, _, _, rfl, rfl⟩
  · exact hs
  · exact isSome_lookup ord (Or.inl hs)

/-- Nothing but strict subclasses of the base is cached for the id exactly when each class with the id that an earlier
lookup has filed is one. -/
theorem cachedBelow_iff (hrun : Run.run step new acts = some s) (hids : s.types.DistinctIds) (base : Cls) :
    s.CachedBelow id base ↔
      ∀ c, Files acts c → (s.types.classes c).typeId = id → Relation.TransGen s.types.graph.DirectSub c base := by
  have hfiled : FiledAny s.types s.registry :=
    filedAny_run (fun id c h => by simp [new] at h) hrun
  constructor
  · rintro hbelow c ⟨acts₁, acts₂, ord, id', b, t, subs, rfl, ht, hmiss, hsubs, hsub⟩ hid
    have hlt := EventTypes.lt_of_strict hsub
    have hcid : t.types.HasId (t.types.classes c).typeId c :=
      ⟨(EventTypes.le_of_found hsubs hsub).trans (Nat.le_of_lt hlt.1), hlt.2, rfl⟩
    obtain ⟨t', ht', hrest⟩ := Run.run_append.1 hrun
    rw [ht] at ht'
    cases ht'
    have hcs := hasId_run hcid hrest
    -- the id is filed, and no other class has it
    obtain ⟨u, hu, hrest⟩ := Run.run_cons.1 hrest
    cases hu
    have hsome := isSome_run (isSome_lookup ord (Or.inr ⟨hmiss, c, subs, hsubs, hsub, rfl⟩)) hrest
    rw [← hcs.2.2, hid] at hsome
    obtain ⟨d, hd⟩ := Option.isSome_iff_exists.1 hsome
    obtain ⟨hle, hdlt, hdid⟩ := hfiled id d hd
    rw [hids c d hcs.1 hcs.2.1 hle hdlt (hid.trans hdid.symm)]
    exact hbelow d hd
  · intro h c hc
    exact h c (files_of_cached hrun hc) (hfiled id c hc).2.2

end

end EventState

/-! ### Two todo events -/

namespace TodoApp

def todoCreated : EventClass := ⟨"demo.todo", "TodoCreated", none, "demo", "1", []⟩

def todoDone : EventClass := ⟨"demo.todo", "TodoDone", none, "demo", "1", []⟩

/-- The lookup of `TodoCreated` under the default `Event`. -/
def lookupCreated : EventAct := .getEventCls .listed "demo.todo:TodoCreated" pydanticEvent

/-- Both classes derive from `PydanticEvent`. -/
def siblings : EventTypes := (EventTypes.new.define [pydanticEvent] todoCreated).define [pydanticEvent] todoDone

/-- `TodoDone` derives from `TodoCreated`. -/
def descendant : EventTypes := (EventTypes.new.define [pydanticEvent] todoCreated).define [5] todoDone

private theorem distinctIds {t : EventTypes} (hsize : t.graph.size = 7)
    (h : ∀ c < 7, ∀ d < 7, pydanticEvent ≤ c → pydanticEvent ≤ d → (t.classes c).typeId = (t.classes d).typeId → c = d) :
    t.DistinctIds := by
  intro c d hc hclt hd hdlt heq
  rw [hsize] at hclt hdlt
  exact h c hclt d hdlt hc hd heq

theorem distinctIds_siblings : siblings.DistinctIds := distinctIds rfl (by decide +kernel)

theorem distinctIds_descendant : descendant.DistinctIds := distinctIds rfl (by decide +kernel)

/-- After a lookup of `TodoCreated`, the lookup under `TodoDone` returns it, although it is no subclass of `TodoDone`;
without the earlier lookup it raises. -/
theorem sibling_found :
    ∃ s s', Run.run EventState.step .new
        [.define [pydanticEvent] todoCreated, .define [pydanticEvent] todoDone, lookupCreated] = some s ∧
      Run.run EventState.step .new [.define [pydanticEvent] todoCreated, .define [pydanticEvent] todoDone] = some s' ∧
      s.types = siblings ∧ s'.types = siblings ∧ siblings.DistinctIds ∧
      (getEventCls s.types .listed s.registry "demo.todo:TodoCreated" 6).2 = .ok 5 ∧
      ¬ s.types.Answers "demo.todo:TodoCreated" 6
        (getEventCls s.types .listed s.registry "demo.todo:TodoCreated" 6).2 ∧
      (getEventCls s'.types .listed s'.registry "demo.todo:TodoCreated" 6).2 =
        .error (.unregisteredEvent "demo.todo:TodoCreated") := by
  have hfound : (getEventCls siblings .listed
      (getEventCls siblings .listed .empty "demo.todo:TodoCreated" pydanticEvent).1 "demo.todo:TodoCreated" 6).2 =
      .ok 5 := by
    decide +kernel
  have hraised : (getEventCls siblings .listed .empty "demo.todo:TodoCreated" 6).2 =
      .error (.unregisteredEvent "demo.todo:TodoCreated") := by
    decide +kernel
  refine ⟨⟨siblings, (getEventCls siblings .listed .empty "demo.todo:TodoCreated" pydanticEvent).1⟩,
    ⟨siblings, .empty⟩, ?_, ?_, rfl, rfl, distinctIds_siblings, hfound, ?_, hraised⟩
  · simp only [Run.run, EventState.step, EventState.new]
    rfl
  · simp only [Run.run, EventState.step, EventState.new]
    rfl
  · -- all strict subclasses of `TodoDone` come after it
    rintro ⟨-, hnone⟩
    rw [hfound] at hnone
    have hno : ∀ c, Relation.TransGen siblings.graph.DirectSub c 6 →
        (siblings.classes c).typeId ≠ "demo.todo:TodoCreated" := by
      intro c hc
      obtain ⟨hlt, hlt'⟩ := EventTypes.lt_of_strict hc
      exact absurd (Nat.le_of_lt_succ hlt') (Nat.not_le_of_lt hlt)
    cases hnone.2 hno

/-- A class that is defined after a lookup is found under its base. -/
theorem late_class_found :
    ∃ s, Run.run EventState.step .new
        [.define [pydanticEvent] todoCreated, lookupCreated, .define [5] todoDone] = some s ∧
      s.types.Answers "demo.todo:TodoDone" 5
        (getEventCls s.types .listed s.registry "demo.todo:TodoDone" 5).2 := by
  have hmiss : (getEventCls (EventTypes.new.define [pydanticEvent] todoCreated) .listed .empty
      "demo.todo:TodoCreated" pydanticEvent).1.get? "demo.todo:TodoDone" = none := by
    decide +kernel
  refine ⟨⟨descendant, (getEventCls (EventTypes.new.define [pydanticEvent] todoCreated) .listed .empty
    "demo.todo:TodoCreated" pydanticEvent).1⟩, ?_, ?_⟩
  · simp only [Run.run, EventState.step, EventState.new]
    rfl
  · refine ((EventState.lookups_iff
      [.define [pydanticEvent] todoCreated, lookupCreated, .define [5] todoDone] _ ?_ distinctIds_descendant
      "demo.todo:TodoDone" 5 (by decide)).1 .listed).2 ?_
    · simp only [Run.run, EventState.step, EventState.new]
      rfl
    · intro c hc
      rw [show _ = none from hmiss] at hc
      cases hc

end TodoApp

end Anywise.Messages
