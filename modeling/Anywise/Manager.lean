import Anywise.Registry

/-!
# `HandlerManager`, `ListenerManager` and `Anywise.include`

The managers hold what was included, merged in three ways: a later handler replaces an earlier one, guards for `Any`
and `object` go to the global list and the others to the list of their target, listeners are appended.
-/

namespace Anywise

structure HandlerManager where
  handlerMetas : Dict Cls FuncMeta
  guardMapping : Dict Cls (List GuardMeta)
  globalGuards : List GuardMeta

namespace HandlerManager

def new : HandlerManager := ⟨.empty, .empty, []⟩

/-- `include_handlers(command_mapping)` -/
def includeHandlers (hm : HandlerManager) (commandMapping : Dict Cls FuncMeta) : HandlerManager :=
  { hm with handlerMetas := hm.handlerMetas.update commandMapping.items }

/-- `origin_target is Any or origin_target is object` -/
def isGlobal (target : Cls) : Bool := target == Cls.any || target == Cls.object

/-- The body of the loop in `include_guards`. -/
def includeGuard (hm : HandlerManager) (item : Cls × List GuardMeta) : HandlerManager :=
  if isGlobal item.1 then { hm with globalGuards := hm.globalGuards ++ item.2 }
  else { hm with guardMapping := hm.guardMapping.extend item.1 item.2 }

/-- `include_guards(guard_mapping)` -/
def includeGuards (hm : HandlerManager) (guardMapping : Dict Cls (List GuardMeta)) : HandlerManager :=
  guardMapping.items.foldl includeGuard hm

/-- `self._global_guards + self._guard_mapping[msg_type]` -/
def commandGuards (hm : HandlerManager) (msgType : Cls) : List GuardMeta :=
  hm.globalGuards ++ hm.guardMapping.getD msgType

/-- Reading `self._guard_mapping[msg_type]` inserts the key. -/
def readGuards (hm : HandlerManager) (msgType : Cls) : HandlerManager :=
  { hm with guardMapping := hm.guardMapping.touch msgType }

/-! ### What an include changes -/

@[simp]
theorem handlerMetas_includeGuard (hm : HandlerManager) (item : Cls × List GuardMeta) :
    (hm.includeGuard item).handlerMetas = hm.handlerMetas := by
  unfold includeGuard
  split <;> rfl

private theorem includeGuards_fold (items : List (Cls × List GuardMeta)) (hnd : (items.map Prod.fst).Nodup)
    (hm : HandlerManager) :
    (items.foldl includeGuard hm).handlerMetas = hm.handlerMetas ∧
    (items.foldl includeGuard hm).globalGuards =
      hm.globalGuards ++ (items.filter fun p => isGlobal p.1).flatMap Prod.snd ∧
    ∀ T, (items.foldl includeGuard hm).guardMapping.getD T =
      hm.guardMapping.getD T ++ if isGlobal T then [] else (Dict.lookup T items).getD [] := by
  induction items generalizing hm with
  | nil => simp [Dict.lookup]
  | cons p items ih =>
    obtain ⟨t, ms⟩ := p
    rw [List.map_cons, List.nodup_cons] at hnd
    obtain ⟨ih1, ih2, ih3⟩ := ih hnd.2 (hm.includeGuard (t, ms))
    rw [List.foldl_cons]
    refine ⟨by rw [ih1, handlerMetas_includeGuard], ?_, fun T => ?_⟩
    · rw [ih2]
      by_cases hg : isGlobal t <;> simp [includeGuard, hg]
    · rw [ih3]
      by_cases hg : isGlobal t
      · by_cases hT : t = T
        · subst hT
          simp [includeGuard, hg]
        · simp [includeGuard, hg, Dict.lookup, hT]
      · by_cases hT : t = T
        · subst hT
          have hno : Dict.lookup t items = none := Dict.lookup_eq_none.2 hnd.1
          simp [includeGuard, hg, Dict.lookup, Dict.getD_extend, hno]
        · simp [includeGuard, hg, Dict.lookup, Dict.getD_extend, hT]

@[simp]
theorem handlerMetas_includeGuards (hm : HandlerManager) (d : Dict Cls (List GuardMeta)) :
    (hm.includeGuards d).handlerMetas = hm.handlerMetas := (includeGuards_fold d.items d.nodup hm).1

/-- The lists of the global targets of a guard mapping. -/
def globalsOf (d : Dict Cls (List GuardMeta)) : List GuardMeta := (d.items.filter fun p => isGlobal p.1).flatMap Prod.snd

theorem globalGuards_includeGuards_globalsOf (hm : HandlerManager) (d : Dict Cls (List GuardMeta)) :
    (hm.includeGuards d).globalGuards = hm.globalGuards ++ globalsOf d := (includeGuards_fold d.items d.nodup hm).2.1

/-- The global guards after an include, for a mapping without the key `object`. -/
theorem globalGuards_includeGuards (hm : HandlerManager) {d : Dict Cls (List GuardMeta)}
    (hd : d.get? Cls.object = none) : (hm.includeGuards d).globalGuards = hm.globalGuards ++ d.getD Cls.any := by
  rw [globalGuards_includeGuards_globalsOf, globalsOf, d.flatMap_items_filter isGlobal Cls.any]
  rintro ⟨t, ms⟩ ht
  have hne : t ≠ Cls.object := by
    rintro rfl
    rw [Dict.mem_items.1 ht] at hd
    cases hd
  simp [isGlobal, hne]

/-- The guards of a type after an include. -/
theorem getD_includeGuards (hm : HandlerManager) (d : Dict Cls (List GuardMeta)) (T : Cls) :
    (hm.includeGuards d).guardMapping.getD T =
      hm.guardMapping.getD T ++ if isGlobal T then [] else d.getD T :=
  (includeGuards_fold d.items d.nodup hm).2.2 T

end HandlerManager

structure ListenerManager where
  listenerMetas : Dict Cls (List FuncMeta)

namespace ListenerManager

def new : ListenerManager := ⟨.empty⟩

/-- `include_listeners(event_mapping)`: the lists are copied, then stored or appended. -/
def includeListeners (lm : ListenerManager) (eventMapping : Dict Cls (List FuncMeta)) : ListenerManager :=
  ⟨eventMapping.items.foldl (fun d item => d.extend item.1 item.2) lm.listenerMetas⟩

end ListenerManager

/-- The managers of an `Anywise`. -/
structure Managers where
  handlerManager : HandlerManager
  listenerManager : ListenerManager

namespace Managers

def new : Managers := ⟨.new, .new⟩

/-- The body of the loop in `Anywise.include`. -/
def includeOne (m : Managers) (r : MessageRegistry) : Managers :=
  { handlerManager := (m.handlerManager.includeHandlers r.commandMapping).includeGuards r.guardMapping
    listenerManager := m.listenerManager.includeListeners r.eventMapping }

/-- `Anywise.include(*registries)` -/
def «include» (m : Managers) (registries : List MessageRegistry) : Managers := registries.foldl includeOne m

end Managers

end Anywise
