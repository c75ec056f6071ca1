import Anywise.Manager

/-!
# The order of includes

An include merges three maps in three ways.  The lists of guards and listeners get the lists of one registry after
the other, so another order permutes blocks; a handler is replaced by a later one, so the order is of no account
where no two registries have a handler for one type (`include_order`).
-/

namespace Anywise

namespace Managers

open HandlerManager (isGlobal globalsOf)

/-- Calls of `Anywise.include`, one after another. -/
def includeAll (m : Managers) (calls : List (List MessageRegistry)) : Managers := calls.foldl Managers.include m

/-- The guards an include of `r` adds to the list of `T`. -/
def guardBlock (r : MessageRegistry) (T : Cls) : List GuardMeta := if isGlobal T then [] else r.guardMapping.getD T

/-- No type has handlers in two registries. -/
def DisjointHandlers (rs : List MessageRegistry) : Prop :=
  ∀ r ∈ rs, ∀ r' ∈ rs, ∀ T, (r.commandMapping.get? T).isSome → (r'.commandMapping.get? T).isSome → r = r'

/-- `block r` is part of both lists, in its order, for each of the registries. -/
def KeepsBlocks {α : Type} (rs : List MessageRegistry) (block : MessageRegistry → List α) (l l' : List α) : Prop :=
  ∀ r ∈ rs, block r <:+: l ∧ block r <:+: l'

/-- The same handlers, and the same guards and listeners up to the order of the registries `rs`. -/
structure SameUpToOrder (rs : List MessageRegistry) (m m' : Managers) : Prop where
  handler : ∀ T, m.handlerManager.handlerMetas.get? T = m'.handlerManager.handlerMetas.get? T
  globals : m.handlerManager.globalGuards.Perm m'.handlerManager.globalGuards
  guards : ∀ T, (m.handlerManager.guardMapping.getD T).Perm (m'.handlerManager.guardMapping.getD T)
  listeners : ∀ T, (m.listenerManager.listenerMetas.getD T).Perm (m'.listenerManager.listenerMetas.getD T)
  published : ∀ T, m.listenerManager.listenerMetas.get? T = none ↔ m'.listenerManager.listenerMetas.get? T = none
  globalBlocks : KeepsBlocks rs (fun r => globalsOf r.guardMapping) m.handlerManager.globalGuards
    m'.handlerManager.globalGuards
  guardBlocks : ∀ T, KeepsBlocks rs (fun r => guardBlock r T) (m.handlerManager.guardMapping.getD T)
    (m'.handlerManager.guardMapping.getD T)
  listenerBlocks : ∀ T, KeepsBlocks rs (fun r => r.eventMapping.getD T) (m.listenerManager.listenerMetas.getD T)
    (m'.listenerManager.listenerMetas.getD T)

variable {m : Managers} {rs rs' : List MessageRegistry}

/-! ### One include after another -/

theorem includeAll_eq (calls : List (List MessageRegistry)) : m.includeAll calls = m.include calls.flatten := by
  induction calls generalizing m with
  | nil => rfl
  | cons rs calls ih =>
    show (m.include rs).includeAll calls = _
    rw [ih, List.flatten_cons, Managers.include, Managers.include, ← List.foldl_append]
    rfl

theorem include_cons (m : Managers) (r : MessageRegistry) (rs : List MessageRegistry) :
    m.include (r :: rs) = (m.includeOne r).include rs := rfl

/-- A handler comes from a registry that has one, or was there before. -/
theorem handlerMetas_include (m : Managers) (rs : List MessageRegistry) (T : Cls) :
    (∃ r ∈ rs, (r.commandMapping.get? T).isSome ∧
        (m.include rs).handlerManager.handlerMetas.get? T = r.commandMapping.get? T) ∨
      (∀ r ∈ rs, r.commandMapping.get? T = none) ∧
        (m.include rs).handlerManager.handlerMetas.get? T = m.handlerManager.handlerMetas.get? T := by
  induction rs generalizing m with
  | nil => exact Or.inr ⟨fun r hr => absurd hr List.not_mem_nil, rfl⟩
  | cons r rs ih =>
    have hone : (m.includeOne r).handlerManager.handlerMetas.get? T =
        (r.commandMapping.get? T).or (m.handlerManager.handlerMetas.get? T) := by
      show (HandlerManager.includeGuards _ _).handlerMetas.get? T = _
      rw [HandlerManager.handlerMetas_includeGuards]
      exact Dict.get?_update_items _ _ _
    rw [include_cons]
    rcases ih (m.includeOne r) with ⟨r', hr', hsome, hget⟩ | ⟨hno, hget⟩
    · exact Or.inl ⟨r', List.mem_cons_of_mem _ hr', hsome, hget⟩
    · rw [hget, hone]
      cases hr : r.commandMapping.get? T with
      | some x => exact Or.inl ⟨r, List.mem_cons_self, by rw [hr]; rfl, by rw [hr]; rfl⟩
      | none =>
        refine Or.inr ⟨fun r' hr' => ?_, Option.none_or⟩
        rcases List.mem_cons.1 hr' with rfl | hr'
        · exact hr
        · exact hno r' hr'

theorem globalGuards_include (m : Managers) (rs : List MessageRegistry) :
    (m.include rs).handlerManager.globalGuards =
      m.handlerManager.globalGuards ++ rs.flatMap fun r => globalsOf r.guardMapping := by
  induction rs generalizing m with
  | nil => simp [Managers.include]
  | cons r rs ih =>
    have hone : (m.includeOne r).handlerManager.globalGuards =
        m.handlerManager.globalGuards ++ globalsOf r.guardMapping :=
      HandlerManager.globalGuards_includeGuards_globalsOf _ _
    rw [include_cons, ih, hone, List.flatMap_cons, List.append_assoc]

theorem guardMapping_include (m : Managers) (rs : List MessageRegistry) (T : Cls) :
    (m.include rs).handlerManager.guardMapping.getD T =
      m.handlerManager.guardMapping.getD T ++ rs.flatMap fun r => guardBlock r T := by
  induction rs generalizing m with
  | nil => simp [Managers.include]
  | cons r rs ih =>
    have hone : (m.includeOne r).handlerManager.guardMapping.getD T =
        m.handlerManager.guardMapping.getD T ++ guardBlock r T :=
      HandlerManager.getD_includeGuards _ _ T
    rw [include_cons, ih, hone, List.flatMap_cons, List.append_assoc]

theorem listenerMetas_include (m : Managers) (rs : List MessageRegistry) (T : Cls) :
    (m.include rs).listenerManager.listenerMetas.getD T =
        m.listenerManager.listenerMetas.getD T ++ rs.flatMap (fun r => r.eventMapping.getD T) ∧
      ((m.include rs).listenerManager.listenerMetas.get? T = none ↔
        m.listenerManager.listenerMetas.get? T = none ∧ ∀ r ∈ rs, r.eventMapping.get? T = none) := by
  induction rs generalizing m with
  | nil => simp [Managers.include]
  | cons r rs ih =>
    have hone : (m.includeOne r).listenerManager.listenerMetas.getD T =
        m.listenerManager.listenerMetas.getD T ++ r.eventMapping.getD T :=
      Dict.getD_foldl_extend_items _ _ T
    have hnone : (m.includeOne r).listenerManager.listenerMetas.get? T = none ↔
        r.eventMapping.get? T = none ∧ m.listenerManager.listenerMetas.get? T = none := by
      show (r.eventMapping.items.foldl (fun d p => d.extend p.1 p.2) m.listenerManager.listenerMetas).get? T = none ↔ _
      rw [Dict.get?_foldl_extend_items, Option.or_eq_none_iff, Option.map_eq_none_iff]
    rw [include_cons, (ih (m.includeOne r)).1, (ih (m.includeOne r)).2, hone, hnone, List.flatMap_cons,
      List.append_assoc, List.forall_mem_cons]
    exact ⟨rfl, by tauto⟩

/-! ### Another order -/

private theorem handler_perm (hp : rs.Perm rs') (hd : DisjointHandlers rs) (T : Cls) :
    (m.include rs).handlerManager.handlerMetas.get? T = (m.include rs').handlerManager.handlerMetas.get? T := by
  rcases handlerMetas_include m rs T with ⟨r, hr, hsome, hget⟩ | ⟨hno, hget⟩
  · rcases handlerMetas_include m rs' T with ⟨r', hr', hsome', hget'⟩ | ⟨hno', -⟩
    · obtain rfl := hd r hr r' (hp.mem_iff.2 hr') T hsome hsome'
      rw [hget, hget']
    · rw [hno' r (hp.mem_iff.1 hr)] at hsome
      cases hsome
  · rcases handlerMetas_include m rs' T with ⟨r', hr', hsome', -⟩ | ⟨-, hget'⟩
    · rw [hno r' (hp.mem_iff.2 hr')] at hsome'
      cases hsome'
    · rw [hget, hget']

private theorem infix_flatMap {α : Type} (block : MessageRegistry → List α) (l : List α) {r : MessageRegistry}
    (hr : r ∈ rs) : block r <:+: l ++ rs.flatMap block := by
  obtain ⟨pre, post, rfl⟩ := List.append_of_mem hr
  refine ⟨l ++ pre.flatMap block, post.flatMap block, ?_⟩
  simp

/-- A list that gets a block from each registry, in two orders. -/
private theorem blocks_perm {α : Type} (hp : rs.Perm rs') (block : MessageRegistry → List α) (l : List α) :
    (l ++ rs.flatMap block).Perm (l ++ rs'.flatMap block) ∧
      KeepsBlocks rs block (l ++ rs.flatMap block) (l ++ rs'.flatMap block) :=
  ⟨(hp.flatMap_right block).append_left l, fun _ hr =>
    ⟨infix_flatMap block l hr, infix_flatMap block l (hp.mem_iff.1 hr)⟩⟩

/-- Registries whose handlers are for different types may be included in any order, in one call or several: the
handlers are the same, and so are the guards and the listeners of every type but for the order of the registries. -/
theorem include_order (m : Managers) (calls calls' : List (List MessageRegistry))
    (hp : calls.flatten.Perm calls'.flatten) (hd : DisjointHandlers calls.flatten) :
    SameUpToOrder calls.flatten (m.includeAll calls) (m.includeAll calls') := by
  rw [includeAll_eq, includeAll_eq]
  have hglobals := blocks_perm hp (fun r => globalsOf r.guardMapping) m.handlerManager.globalGuards
  have hguards := fun T => blocks_perm hp (fun r => guardBlock r T) (m.handlerManager.guardMapping.getD T)
  have hlisteners := fun T => blocks_perm hp (fun r => r.eventMapping.getD T)
    (m.listenerManager.listenerMetas.getD T)
  rw [← globalGuards_include, ← globalGuards_include] at hglobals
  simp only [← guardMapping_include] at hguards
  simp only [← (listenerMetas_include _ _ _).1] at hlisteners
  refine ⟨fun T => handler_perm hp hd T, hglobals.1, fun T => (hguards T).1, fun T => (hlisteners T).1, fun T => ?_,
    hglobals.2, fun T => (hguards T).2, fun T => (hlisteners T).2⟩
  rw [(listenerMetas_include m _ T).2, (listenerMetas_include m _ T).2]
  simp only [hp.mem_iff]

/-! ### Guards in a registry of their own -/

namespace UserRegistries

/-- The meta of handler `id` for `command`. -/
def handlerMeta (id : FuncId) (command : Cls) : FuncMeta :=
  ⟨command, ⟨id, [⟨"cmd", .cls command⟩], true⟩, true, false, Ignored.cls command :: IGNORE_TYPES, none⟩

def guardMeta (command : Cls) : GuardMeta := ⟨command, .obj (.guard 2 0 command (some 3) none)⟩

/-- Handlers of `CreateUser` and `UpdateUser`, numbers 5 and 6, in two registries. -/
def userRegistry (i : Nat) (command : Cls) : MessageRegistry :=
  { MessageRegistry.new i (some 4) none with commandMapping := Dict.empty.set command (handlerMeta i command) }

/-- A guard for both commands. -/
def guardRegistry : MessageRegistry :=
  { MessageRegistry.new 2 (some 4) none with
    guardMapping := (Dict.empty.set 5 [guardMeta 5]).set 6 [guardMeta 6] }

/-- The registry of the guards may be included first or last. -/
theorem guards_first_or_last :
    SameUpToOrder [guardRegistry, userRegistry 0 5, userRegistry 1 6]
      (Managers.new.includeAll [[guardRegistry, userRegistry 0 5, userRegistry 1 6]])
      (Managers.new.includeAll [[userRegistry 0 5, userRegistry 1 6], [guardRegistry]]) := by
  have hget : ∀ i command T, ((userRegistry i command).commandMapping.get? T).isSome → command = T := by
    intro i command T h
    by_cases hT : command = T
    · exact hT
    · simp [userRegistry, Dict.get?_set, hT] at h
  suffices hd : DisjointHandlers [guardRegistry, userRegistry 0 5, userRegistry 1 6] by
    exact include_order .new [[guardRegistry, userRegistry 0 5, userRegistry 1 6]]
      [[userRegistry 0 5, userRegistry 1 6], [guardRegistry]]
      (@List.perm_append_comm _ [guardRegistry] [userRegistry 0 5, userRegistry 1 6]) hd
  intro r hr r' hr' T h h'
  simp only [List.mem_cons, List.not_mem_nil, or_false] at hr hr'
  rcases hr with rfl | rfl | rfl
  · cases h
  · rcases hr' with rfl | rfl | rfl
    · cases h'
    · rfl
    · exact absurd ((hget 0 5 T h).trans (hget 1 6 T h').symm) (by decide)
  · rcases hr' with rfl | rfl | rfl
    · cases h'
    · exact absurd ((hget 0 5 T h').trans (hget 1 6 T h).symm) (by decide)
    · rfl

end UserRegistries

end Managers

end Anywise
