import Anywise.Atomicity
import Anywise.Lib.Batch

/-!
# Batches of registrations

`register` takes handlers, guard classes and guard functions together and registers one after another.  It stops at
the first that raises and does not take back what it has registered: the registry is as after a batch of the items
before that one (`Registered`).  When the batch is corrected and given again, these items are registered twice: a
command still has its handler, but the listeners and guards among them are then called twice (`register_batch`).
-/

namespace Anywise

/-! ### Items -/

/-- One argument of `register`. -/
inductive BatchItem
  | handler (h : Target)
  /-- a class below `BaseGuard` -/
  | guardClass (c : ClassObj)
  | preHandle (func : Target)
  | postHandle (func : Target)

namespace BatchItem

/-- An argument among the handlers. -/
def ofHandler (g : ClassGraph) : Target → BatchItem
  | .cls c => if g.issubclass c.cls Cls.baseGuard then .guardClass c else .handler (.cls c)
  | h => .handler h

/-- The metas of the item for a base. -/
def metas (g : ClassGraph) (ord : SetOrder) (base : Option Cls) : BatchItem → List FuncMeta
  | .handler h => extracted g ord base h
  | _ => []

/-- The classes a guard stands for. -/
def targets (g : ClassGraph) (func : Target) : List Cls :=
  match guardAnnotation func with
  | none => []
  | some a =>
    match gatherTypes g a with
    | .error _ => []
    | .ok types => types

/-- The guards of the item for `T`; those that `pre_handle` and `post_handle` make are not numbered. -/
def guards (g : ClassGraph) (T : Cls) : BatchItem → List GuardMeta
  | .handler _ => []
  | .guardClass c => if T ∈ targets g (.cls c) then [⟨T, .cls c.cls⟩] else []
  | .preHandle f => if T ∈ targets g f then [⟨T, .obj (.guard 0 0 T (some f.id) none)⟩] else []
  | .postHandle f => if T ∈ targets g f then [⟨T, .obj (.guard 0 0 T none (some f.id))⟩] else []

/-- The registration of the item by itself, as an action. -/
def act (i : Nat) (ord : SetOrder) : BatchItem → WorldAct
  | .handler h => .register i ord h
  | .guardClass c => .addGuard i ord (.cls c)
  | .preHandle f => .preHandle i ord f
  | .postHandle f => .postHandle i ord f

end BatchItem

/-- The arguments of `register`, in the order in which it registers them. -/
def batchItems (g : ClassGraph) (handlers preHanldes postHandles : List Target) : List BatchItem :=
  handlers.map (.ofHandler g) ++ preHanldes.map .preHandle ++ postHandles.map .postHandle

/-- The meta with the number of its guard left out. -/
def GuardMeta.unnumbered (m : GuardMeta) : GuardMeta :=
  match m.guard with
  | .obj (.guard _ _ t pre post) => ⟨m.guardTarget, .obj (.guard 0 0 t pre post)⟩
  | _ => m

namespace MessageRegistry

/-- The registration of one item. -/
def registerItem (g : ClassGraph) (ord : SetOrder) (r : MessageRegistry) :
    BatchItem → MessageRegistry × Except PyErr Unit
  | .handler h => r._register g ord h
  | .guardClass c => r.addGuards g ord [.cls c]
  | .preHandle f => r.attempt (r.preHandle g ord f)
  | .postHandle f => r.attempt (r.postHandle g ord f)

/-- From `r` the maps of `r'` have come by the items, in order, and nothing else. -/
structure Registered (g : ClassGraph) (ord : SetOrder) (r : MessageRegistry) (items : List BatchItem)
    (r' : MessageRegistry) : Prop where
  commands : ∀ T, r'.commandMapping.get? T =
    (Dict.lastOf T ((items.flatMap (BatchItem.metas g ord r.commandBase)).map fun m => (m.messageType, m))).or
      (r.commandMapping.get? T)
  events : ∀ T, r'.eventMapping.getD T = r.eventMapping.getD T ++
    (items.flatMap (BatchItem.metas g ord r.eventBase)).filter fun m => decide (m.messageType = T)
  guards : ∀ T, (r'.guardMapping.getD T).map GuardMeta.unnumbered =
    (r.guardMapping.getD T).map GuardMeta.unnumbered ++ items.flatMap (BatchItem.guards g T)

/-- The registries that raise at the same items. -/
def SameBases (r r' : MessageRegistry) : Prop := r.commandBase = r'.commandBase ∧ r.eventBase = r'.eventBase

variable {g : ClassGraph} {ord : SetOrder} {r : MessageRegistry}

/-! ### One item -/

private theorem forEach_eq {α : Type} (body : MessageRegistry → α → MessageRegistry × Except PyErr Unit)
    (r : MessageRegistry) (as : List α) : forEach body r as = Batch.run body r as := by
  induction as generalizing r with
  | nil => rfl
  | cons a as ih =>
    rw [forEach, Batch.run]
    rcases body r a with ⟨r', e | u⟩
    · rfl
    · exact ih r'

/-- `register` registers one item after another. -/
theorem register_eq (g : ClassGraph) (ord : SetOrder) (r : MessageRegistry)
    (handlers preHanldes postHandles : List Target) :
    r.register g ord handlers preHanldes postHandles =
      Batch.run (registerItem g ord) r (batchItems g handlers preHanldes postHandles) := by
  have hhandler : (fun (r : MessageRegistry) h => r.registerItem g ord (.ofHandler g h)) =
      fun (r : MessageRegistry) h => match h with
        | .cls c => if g.issubclass c.cls Cls.baseGuard then r.addGuards g ord [.cls c] else r._register g ord h
        | _ => r._register g ord h := by
    funext r h
    cases h with
    | cls c =>
      by_cases hc : g.issubclass c.cls Cls.baseGuard = true <;> simp [BatchItem.ofHandler, registerItem, hc]
    | func f => rfl
    | other i => rfl
  have hpre : (fun r f => registerItem g ord r (.preHandle f)) = fun r f => r.attempt (r.preHandle g ord f) := rfl
  have hpost : (fun r f => registerItem g ord r (.postHandle f)) = fun r f => r.attempt (r.postHandle g ord f) := rfl
  rw [batchItems, Batch.run_append, Batch.run_append, Batch.run_map, hhandler]
  simp only [register, forEach_eq, Batch.run_map, hpre, hpost]
  generalize Batch.run _ r handlers = res
  rcases res with ⟨r₁, e | ⟨⟩⟩
  · rfl
  · dsimp only
    rcases hq : Batch.run (fun r f => r.attempt (preHandle g ord r f)) r₁ preHanldes with ⟨r₂, e | ⟨⟩⟩
    · simp only [hq]
    · simp only [hq]

private theorem addGuards_single (guard : GuardArg) :
    r.addGuards g ord [guard] = r.attempt (r.addGuard g ord guard) := by
  rw [addGuards, forEach]
  cases r.addGuard g ord guard with
  | error e => rfl
  | ok r' => rfl

/-- The outcome of a guard registration. -/
private theorem attempt_guardResult (r : MessageRegistry) (func : Target) (ref : Cls → GuardRef) (made : Nat) :
    (∃ e, r.attempt (guardResult g ord r func ref made) = (r, .error e)) ∨
      ∃ r', r.attempt (guardResult g ord r func ref made) = (r', .ok ()) ∧ SameHandlers r r' ∧
        r'.eventMapping = r.eventMapping ∧ ∀ T, r'.guardMapping.getD T = r.guardMapping.getD T ++
          if T ∈ BatchItem.targets g func then [⟨T, ref T⟩] else [] := by
  unfold guardResult
  cases ht : r.getGuardtarget g func with
  | error e => exact Or.inl ⟨e, rfl⟩
  | ok targets =>
    obtain ⟨a, ha, hg⟩ := getGuardtarget_ok ht
    have htargets : BatchItem.targets g func = targets := by simp [BatchItem.targets, ha, hg]
    refine Or.inr ⟨_, rfl, ⟨rfl, rfl, rfl, rfl⟩, rfl, fun T => ?_⟩
    rw [htargets]
    exact getD_appendGuards (gatherTypes_nodup hg) r.guardMapping ref T

/-- What a registration raises, by what its phases extract. -/
private theorem _register_outcome (g : ClassGraph) (ord : SetOrder) (r : MessageRegistry) (h : Target) :
    (r._register g ord h).2 =
      match phase g ord r.commandBase h, phase g ord r.eventBase h with
      | .error e, p => if e.isHandlerRegisterFail then p.map fun _ => () else .error e
      | .ok _, .error e => if e.isHandlerRegisterFail then .ok () else .error e
      | .ok _, .ok _ => .ok () := by
  cases hc : phase g ord r.commandBase h with
  | error e =>
    have hcommands := registerCommandhanlders_error_iff.2 hc
    cases hev : phase g ord r.eventBase h with
    | error e' =>
      have hevents := registerEventlisteners_error_iff.2 hev
      cases hf : e.isHandlerRegisterFail <;> simp [_register, hcommands, hevents, hf, Except.map]
    | ok metas =>
      have hevents := registerEventlisteners_of_phase hev
      cases hf : e.isHandlerRegisterFail <;> simp [_register, hcommands, hevents, hf, Except.map]
  | ok commands =>
    have hcommands : r.registerCommandhanlders g ord h = .ok (r.added commands []) :=
      registerCommandhanlders_of_phase hc
    cases hev : phase g ord r.eventBase h with
    | error e =>
      have hevents : (r.added commands []).registerEventlisteners g ord h = .error e :=
        registerEventlisteners_error_iff.2 hev
      cases hf : e.isHandlerRegisterFail <;> simp [_register, hcommands, hevents, hf]
    | ok events =>
      have hevents : (r.added commands []).registerEventlisteners g ord h = .ok (r.added commands events) :=
        registerEventlisteners_of_phase hev
      simp [_register, hcommands, hevents]

/-- Whether an item raises, and how, depends on the bases only. -/
private theorem registerItem_same {r' : MessageRegistry} (hs : r.SameBases r') (item : BatchItem) :
    (r.registerItem g ord item).2 = (r'.registerItem g ord item).2 := by
  obtain ⟨hc, he⟩ := hs
  have hguard : ∀ (func : Target) (ref ref' : Cls → GuardRef) (made made' : Nat),
      (r.attempt (guardResult g ord r func ref made)).2 = (r'.attempt (guardResult g ord r' func ref' made')).2 := by
    intro func ref ref' made made'
    have htarget : r.getGuardtarget g func = r'.getGuardtarget g func := by
      rw [getGuardtarget_eq, getGuardtarget_eq, hc]
    unfold guardResult
    rw [htarget]
    cases r'.getGuardtarget g func <;> rfl
  cases item with
  | handler h => rw [registerItem, registerItem, _register_outcome, _register_outcome, hc, he]
  | guardClass c =>
    rw [registerItem, registerItem, addGuards_single, addGuards_single, addGuard_eq, addGuard_eq]
    exact hguard _ _ _ _ _
  | preHandle f => exact hguard _ _ _ _ _
  | postHandle f => exact hguard _ _ _ _ _

/-- An item raises and changes nothing, or adds its metas and guards. -/
theorem registerItem_cases (g : ClassGraph) (ord : SetOrder) (r : MessageRegistry) (item : BatchItem) :
    (∃ e, r.registerItem g ord item = (r, .error e)) ∨
      ∃ r', r.registerItem g ord item = (r', .ok ()) ∧ r.SameBases r' ∧ Registered g ord r [item] r' := by
  have hguard : ∀ (func : Target) (ref : Cls → GuardRef) (made : Nat),
      (∀ b, item.metas g ord b = []) → (∀ T, item.guards g T =
        if T ∈ BatchItem.targets g func then [GuardMeta.unnumbered ⟨T, ref T⟩] else []) →
      (∃ e, r.attempt (guardResult g ord r func ref made) = (r, .error e)) ∨
        ∃ r', r.attempt (guardResult g ord r func ref made) = (r', .ok ()) ∧ r.SameBases r' ∧
          Registered g ord r [item] r' := by
    intro func ref made hmetas hguards
    rcases attempt_guardResult r func ref made with ⟨e, he⟩ | ⟨r', hr', hsame, hevents, hg⟩
    · exact Or.inl ⟨e, he⟩
    · refine Or.inr ⟨r', hr', ⟨hsame.commandBase.symm, hsame.eventBase.symm⟩, fun T => ?_, fun T => ?_, fun T => ?_⟩
      · simp [hmetas, hsame.commandMapping, Dict.lastOf]
      · simp [hmetas, hevents]
      · rw [hg, List.map_append, List.flatMap_singleton, hguards]
        by_cases hT : T ∈ BatchItem.targets g func <;> simp [hT]
  cases item with
  | handler h =>
    rcases _register_inversion g ord r h with ⟨e, he, -⟩ | ⟨hr', -⟩
    · exact Or.inl ⟨e, he⟩
    · refine Or.inr ⟨_, hr', ⟨rfl, rfl⟩, fun T => ?_, fun T => ?_, fun T => ?_⟩
      · rw [get?_commandMapping_added, List.flatMap_singleton, BatchItem.metas]
      · rw [List.flatMap_singleton, BatchItem.metas]
        exact getD_appendMetas r.eventMapping _ T
      · simp [added, BatchItem.guards]
  | guardClass c =>
    rw [registerItem, addGuards_single, addGuard_eq]
    exact hguard _ _ _ (fun _ => rfl) fun T => rfl
  | preHandle f => exact hguard _ _ _ (fun _ => rfl) fun T => rfl
  | postHandle f => exact hguard _ _ _ (fun _ => rfl) fun T => rfl

/-- Registrations are all or nothing, and none makes another one raise. -/
theorem steady_registerItem (g : ClassGraph) (ord : SetOrder) : Batch.Steady (registerItem g ord) SameBases where
  equiv := ⟨fun _ => ⟨rfl, rfl⟩, fun h => ⟨h.1.symm, h.2.symm⟩, fun h h' => ⟨h.1.trans h'.1, h.2.trans h'.2⟩⟩
  raises r item e he := by
    rcases registerItem_cases g ord r item with ⟨e', hr⟩ | ⟨r', hr, -⟩
    · rw [hr]
    · rw [hr] at he
      cases he
  keeps r item := by
    rcases registerItem_cases g ord r item with ⟨e, hr⟩ | ⟨r', hr, hs, -⟩
    · rw [hr]
      exact ⟨rfl, rfl⟩
    · rw [hr]
      exact hs
  same r r' item hs := registerItem_same hs item

/-! ### A batch -/

/-- The items that `register` registers: those before the first that raises. -/
def batchDone (g : ClassGraph) (ord : SetOrder) (r : MessageRegistry)
    (handlers preHanldes postHandles : List Target) : List BatchItem :=
  Batch.done (registerItem g ord) r (batchItems g handlers preHanldes postHandles)

private theorem foldl_lastOf (f : BatchItem → List FuncMeta) (T : Cls) (items : List BatchItem)
    (x : Option FuncMeta) :
    items.foldl (fun x item => (Dict.lastOf T ((f item).map fun m => (m.messageType, m))).or x) x =
      (Dict.lastOf T ((items.flatMap f).map fun m => (m.messageType, m))).or x := by
  induction items generalizing x with
  | nil => simp [Dict.lastOf]
  | cons item items ih =>
    rw [List.foldl_cons, ih, List.flatMap_cons, List.map_append, Dict.lastOf_append, Option.or_assoc]

/-- Items none of which raises add what each of them adds, in order. -/
theorem registered_after {items : List BatchItem}
    (hpass : ∀ item ∈ items, Batch.passes (registerItem g ord) r item = true) :
    Registered g ord r items (Batch.after (registerItem g ord) r items) := by
  have hsteady := steady_registerItem g ord
  have hone : ∀ t item, r.SameBases t → (t.registerItem g ord item).2 = .ok () →
      Registered g ord t [item] (t.registerItem g ord item).1 := by
    intro t item _ hok
    rcases registerItem_cases g ord t item with ⟨e, ht⟩ | ⟨t', ht, -, hreg⟩
    · rw [ht] at hok
      cases hok
    · rw [ht]
      exact hreg
  refine ⟨fun T => ?_, fun T => ?_, fun T => ?_⟩
  · have hobs := hsteady.obs_after (fun t => t.commandMapping.get? T)
      (fun x item => (Dict.lastOf T ((item.metas g ord r.commandBase).map fun m => (m.messageType, m))).or x)
      (fun t item hs hok => by
        rw [(hone t item hs hok).commands T, List.flatMap_singleton, hs.1]) hpass
    rw [hobs, foldl_lastOf]
  · have hobs := hsteady.obs_after (fun t => t.eventMapping.getD T)
      (fun x item => x ++ (item.metas g ord r.eventBase).filter fun m => decide (m.messageType = T))
      (fun t item hs hok => by
        rw [(hone t item hs hok).events T, List.flatMap_singleton, hs.2]) hpass
    rw [hobs, List.foldl_append_eq_append, List.filter_flatMap, List.flatMap_def]
  · have hobs := hsteady.obs_after (fun t => (t.guardMapping.getD T).map GuardMeta.unnumbered)
      (fun x item => x ++ item.guards g T)
      (fun t item hs hok => by
        rw [(hone t item hs hok).guards T, List.flatMap_singleton]) hpass
    rw [hobs, List.foldl_append_eq_append, List.flatMap_def]

/-- A batch registers its items up to the first that raises. -/
theorem registered_run (g : ClassGraph) (ord : SetOrder) (r : MessageRegistry) (items : List BatchItem) :
    Registered g ord r (Batch.done (registerItem g ord) r items) (Batch.run (registerItem g ord) r items).1 := by
  rw [(steady_registerItem g ord).state_run]
  exact registered_after fun item => Batch.passes_of_mem_done

/-- A batch that begins with what an earlier one has done. -/
theorem registered_rerun {items items' : List BatchItem}
    (hpre : Batch.done (registerItem g ord) r items <+: items')
    (hok : (Batch.run (registerItem g ord) r items').2 = .ok ()) :
    Registered g ord r (Batch.done (registerItem g ord) r items ++ items')
        (Batch.run (registerItem g ord) (Batch.run (registerItem g ord) r items).1 items').1 ∧
      ∀ T, (Batch.run (registerItem g ord) (Batch.run (registerItem g ord) r items).1 items').1.commandMapping.get? T =
        (Batch.run (registerItem g ord) r items').1.commandMapping.get? T := by
  have hsteady := steady_registerItem g ord
  have hdone := (hsteady.run_ok_iff r items').1 hok
  have hpass : ∀ item ∈ Batch.done (registerItem g ord) r items ++ items',
      Batch.passes (registerItem g ord) r item = true := by
    intro item hitem
    rw [← hdone] at hitem
    rcases List.mem_append.1 hitem with hitem | hitem
    · exact Batch.passes_of_mem_done hitem
    · exact Batch.passes_of_mem_done hitem
  have hboth : Registered g ord r (Batch.done (registerItem g ord) r items ++ items')
      (Batch.run (registerItem g ord) (Batch.run (registerItem g ord) r items).1 items').1 := by
    rw [hsteady.state_rerun, hdone]
    exact registered_after hpass
  have hclean := registered_run g ord r items'
  rw [hdone] at hclean
  refine ⟨hboth, fun T => ?_⟩
  rw [hboth.commands, hclean.commands]
  -- the items done are among those of the batch, whose metas come later
  obtain ⟨rest, hrest⟩ := hpre
  simp only [← hrest, List.flatMap_append, List.map_append, Dict.lastOf_append]
  generalize Dict.lastOf T ((rest.flatMap _).map _) = x
  generalize Dict.lastOf T ((List.flatMap _ _).map _) = y
  cases x <;> cases y <;> simp

/-- In a world, the items are registered one by one. -/
theorem run_act (w : World) (i : Nat) (ord : SetOrder) (items : List BatchItem) :
    w.run (items.map (BatchItem.act i ord)) =
      w.setRegistry i (Batch.after (registerItem w.graph ord) (w.registries i) items) := by
  have hstep : ∀ (w : World) (item : BatchItem), w.step (item.act i ord) =
      w.setRegistry i ((w.registries i).registerItem w.graph ord item).1 := by
    intro w item
    cases item with
    | guardClass c =>
      rw [registerItem, addGuards_single]
      rfl
    | _ => rfl
  induction items generalizing w with
  | nil =>
    show w = w.setRegistry i (w.registries i)
    rw [World.setRegistry, Function.update_eq_self]
  | cons item items ih =>
    rw [List.map_cons, World.run, List.foldl_cons, ← World.run, ih, hstep]
    simp [World.setRegistry, Batch.after]

/-- `register` registers its items up to the first that raises, as if one by one, and raises what that one raises.  A
corrected batch that begins with the same items does not raise after it; it leaves a command its handler, and adds the
listeners and guards of these items once more. -/
theorem register_batch (g : ClassGraph) (ord : SetOrder) (r : MessageRegistry)
    (handlers preHanldes postHandles : List Target) :
    let res := r.register g ord handlers preHanldes postHandles
    let items := batchItems g handlers preHanldes postHandles
    let done := r.batchDone g ord handlers preHanldes postHandles
    Registered g ord r done res.1 ∧
    (∀ (w : World) (i : Nat), w.graph = g → w.registries i = r →
      w.run (done.map (BatchItem.act i ord)) = w.setRegistry i res.1) ∧
    (res.2 = .ok () ↔ done = items) ∧
    (∀ item rest, items = done ++ item :: rest → ∃ e, res.2 = .error e ∧ (r.registerItem g ord item).2 = .error e) ∧
    ∀ handlers' preHanldes' postHandles', done <+: batchItems g handlers' preHanldes' postHandles' →
      (r.register g ord handlers' preHanldes' postHandles').2 = .ok () →
      let clean := (r.register g ord handlers' preHanldes' postHandles').1
      let again := res.1.register g ord handlers' preHanldes' postHandles'
      again.2 = .ok () ∧ Registered g ord r (done ++ batchItems g handlers' preHanldes' postHandles') again.1 ∧
      ∀ T, again.1.commandMapping.get? T = clean.commandMapping.get? T := by
  have hsteady := steady_registerItem g ord
  simp only [register_eq]
  refine ⟨registered_run g ord r _, ?_, hsteady.run_ok_iff r _, ?_, ?_⟩
  · rintro w i rfl rfl
    rw [run_act, hsteady.state_run]
    rfl
  · intro item rest hitems
    have hfails := Batch.not_passes_of_done hitems
    have herror : (Batch.run (registerItem g ord) r (batchItems g handlers preHanldes postHandles)).2 =
        (r.registerItem g ord item).2 := by
      rw [hitems]
      exact hsteady.run_error r (fun item => Batch.passes_of_mem_done) hfails
    rcases registerItem_cases g ord r item with ⟨e, he⟩ | ⟨r', hr', -⟩
    · rw [he] at herror ⊢
      exact ⟨e, herror, rfl⟩
    · rw [Batch.passes, hr'] at hfails
      cases hfails
  · intro handlers' preHanldes' postHandles' hpre hok
    have hsame := hsteady.result_congr (hsteady.keeps_run r (batchItems g handlers preHanldes postHandles))
      (batchItems g handlers' preHanldes' postHandles')
    exact ⟨hsame.symm.trans hok, registered_rerun hpre hok⟩

/-! ### A batch given again -/

/-- A registry for commands and events below `UserCommand`. -/
def twoBases : MessageRegistry := .new 0 (some 4) (some 4)

/-- A function of `UserCommand`. -/
def userFunc (id : FuncId) : Target := .func ⟨id, [⟨"command", .cls 4⟩], true⟩

/-- The second function is of another class, and the batch raises; given again without it, the first one listens
twice. -/
theorem userFunc_listens_twice :
    (∃ e, (twoBases.register userClasses .listed [userFunc 1, randomFunc] [] []).2 = .error e) ∧
      (((twoBases.register userClasses .listed [userFunc 1, randomFunc] [] []).1.register userClasses .listed
        [userFunc 1, userFunc 2] [] []).1.eventMapping.getD 4).map (fun m => m.handler.id) = [1, 1, 2] := by
  have hdone : twoBases.batchDone userClasses .listed [userFunc 1, randomFunc] [] [] = [.handler (userFunc 1)] := rfl
  obtain ⟨-, -, -, hraises, hagain⟩ :=
    register_batch userClasses .listed twoBases [userFunc 1, randomFunc] [] []
  rw [hdone] at hraises hagain
  constructor
  · obtain ⟨e, he, -⟩ := hraises (.handler randomFunc) [] rfl
    exact ⟨e, he⟩
  · obtain ⟨-, hregistered, -⟩ := hagain [userFunc 1, userFunc 2] [] [] ⟨[.handler (userFunc 2)], rfl⟩ rfl
    rw [hregistered.events]
    rfl

end MessageRegistry

end Anywise
