import Anywise.Journal

/-!
# The listeners of a type

A registration appends a meta for each function that covers a type to the list its registry has for the type, and an
include appends these lists to those of the `Anywise`.  So the listeners of a type are, include after include, the
functions and methods that covered the type in the included registry at that moment (`listenerList_functions`).
-/

namespace Anywise

/-! ### The functions of a handler -/

instance (g : ClassGraph) (d c : Cls) : Decidable (g.Sub d c) := decidable_of_iff _ g.issubclass_iff

instance (g : ClassGraph) (base : Cls) (params : List Param) (T : Cls) : Decidable (Accepts g base params T) :=
  match params with
  | [] => .isFalse (by rintro ⟨msg, rest, h, -⟩; cases h)
  | msg :: rest =>
    decidable_of_iff ((∃ c ∈ msg.annotation.leaves, g.Sub T c) ∧ ∀ c ∈ msg.annotation.leaves, g.Sub c base) (by
      constructor
      · intro h
        exact ⟨msg, rest, rfl, h⟩
      · rintro ⟨msg', rest', h, hacc⟩
        cases h
        exact hacc)

/-- A function, with the class whose method it is. -/
structure Listener where
  func : Func
  owner : Option Cls

def FuncMeta.listener (m : FuncMeta) : Listener := ⟨m.handler, m.ownerType⟩

/-- The functions of a handler that take messages of type `T`, methods in the order of their names. -/
def Target.listeners (g : ClassGraph) (base T : Cls) : Target → List Listener
  | .func f => if Accepts g base f.params T then [⟨f, none⟩] else []
  | .cls c =>
    (c.getmembers.filter fun m => !isPrivate m.1 && decide (Accepts g base m.2.params.tail T)).map fun m =>
      ⟨m.2, some c.cls⟩
  | .other _ => []

/-! ### What a registration appends -/

/-- The event phase of `_register`, after the command phase. -/
def eventPhase (g : ClassGraph) (ord : SetOrder) (bases : Option Cls × Option Cls) (h : Target) :
    Except PyErr (List FuncMeta) :=
  match phase g ord bases.1 h with
  | .error e => if e.isHandlerRegisterFail then phase g ord bases.2 h else .error e
  | .ok _ => phase g ord bases.2 h

/-- What `_register` appends to the lists of the event mapping. -/
def listenerMetas (g : ClassGraph) (ord : SetOrder) (bases : Option Cls × Option Cls) (h : Target) : List FuncMeta :=
  match eventPhase g ord bases h with
  | .error _ => []
  | .ok metas => metas

namespace MessageRegistry

variable {g : ClassGraph} {ord : SetOrder} {r r' : MessageRegistry} {h : Target}

/-- What a registration does to the event mapping, also when it raises. -/
theorem _register_events (g : ClassGraph) (ord : SetOrder) (r : MessageRegistry) (h : Target) :
    (r._register g ord h).1.eventMapping =
      appendMetas r.eventMapping (listenerMetas g ord (r.commandBase, r.eventBase) h) := by
  cases hphase : phase g ord r.commandBase h with
  | error e =>
    have hc := registerCommandhanlders_error_iff.2 hphase
    by_cases hf : e.isHandlerRegisterFail = true
    · -- the failure is caught, and the event phase runs
      cases hphase' : phase g ord r.eventBase h with
      | error e' =>
        have hev := registerEventlisteners_error_iff.2 hphase'
        simp [_register, hc, hf, hev, listenerMetas, eventPhase, hphase, hphase', appendMetas]
      | ok metas =>
        have hev := registerEventlisteners_of_phase hphase'
        simp [_register, hc, hf, hev, listenerMetas, eventPhase, hphase, hphase']
    · simp [_register, hc, hf, listenerMetas, eventPhase, hphase, appendMetas]
  | ok metas =>
    obtain ⟨r₁, hc⟩ : ∃ r₁, r.registerCommandhanlders g ord h = .ok r₁ := ⟨_, registerCommandhanlders_of_phase hphase⟩
    obtain ⟨hs, hev₁, -⟩ := registerCommandhanlders_ok hc
    cases hphase' : phase g ord r.eventBase h with
    | error e =>
      have hev := registerEventlisteners_error_iff.2 (hs.eventBase.symm ▸ hphase')
      have hres : (r._register g ord h).1 = r₁ := by
        simp only [_register, hc, hev]
        split <;> rfl
      rw [hres, hev₁]
      simp [listenerMetas, eventPhase, hphase, hphase', appendMetas]
    | ok metas' =>
      have hev := registerEventlisteners_of_phase (hs.eventBase.symm ▸ hphase')
      simp [_register, hc, hev, hev₁, listenerMetas, eventPhase, hphase, hphase']

end MessageRegistry

theorem filled_appendMetas {d : Dict Cls (List FuncMeta)} (hd : d.Filled) (metas : List FuncMeta) :
    (appendMetas d metas).Filled := by
  unfold appendMetas
  induction metas generalizing d with
  | nil => exact hd
  | cons m metas ih => exact ih (hd.extend m.messageType (List.cons_ne_nil m []))

namespace ListenerManager

theorem getD_includeListeners (lm : ListenerManager) (d : Dict Cls (List FuncMeta)) (T : Cls) :
    (lm.includeListeners d).listenerMetas.getD T = lm.listenerMetas.getD T ++ d.getD T :=
  Dict.getD_foldl_extend_items _ _ T

theorem filled_includeListeners {lm : ListenerManager} (hl : lm.listenerMetas.Filled)
    {d : Dict Cls (List FuncMeta)} (hd : d.Filled) : (lm.includeListeners d).listenerMetas.Filled := by
  have hfold : ∀ (items : List (Cls × List FuncMeta)) (e : Dict Cls (List FuncMeta)), e.Filled →
      (∀ p ∈ items, p.2 ≠ []) → (items.foldl (fun d p => d.extend p.1 p.2) e).Filled := by
    intro items
    induction items with
    | nil => exact fun e he _ => he
    | cons p items ih =>
      intro e he hitems
      have hp : p.2 ≠ [] := hitems p List.mem_cons_self
      exact ih _ (he.extend p.1 hp) fun q hq => hitems q (List.mem_cons_of_mem _ hq)
  exact hfold d.items _ hl fun p hp => hd p.1 p.2 (Dict.mem_items.1 hp)

end ListenerManager

/-! ### The lists as functions of the journal -/

section Lists

variable (bases : Nat → Option Cls × Option Cls)

/-- The metas an entry adds to the list of `T` in registry `r`. -/
def entryListeners (r : Nat) (T : Cls) : Entry → List FuncMeta
  | .handler r' g ord h =>
    if r' = r then (listenerMetas g ord (bases r) h).filter fun m => decide (m.messageType = T) else []
  | _ => []

/-- The list of `T` in registry `r`. -/
def listenersIn (r : Nat) (T : Cls) (J : List Entry) : List FuncMeta := J.flatMap (entryListeners bases r T)

/-- What the includes of a journal append to the list of `T`, `seen` being the journal before it. -/
def listenersFrom (T : Cls) (seen : List Entry) : List Entry → List FuncMeta
  | [] => []
  | .incl r :: J => listenersIn bases r T seen ++ listenersFrom T (seen ++ [.incl r]) J
  | e :: J => listenersFrom T (seen ++ [e]) J

/-- The list of `T` an `Anywise` holds. -/
def listenerList (T : Cls) (J : List Entry) : List FuncMeta := listenersFrom bases T [] J

end Lists

section

variable {bases : Nat → Option Cls × Option Cls} {w : World} {J : List Entry} {T : Cls}

theorem listenersIn_append (r : Nat) (T : Cls) (J K : List Entry) :
    listenersIn bases r T (J ++ K) = listenersIn bases r T J ++ listenersIn bases r T K := List.flatMap_append

theorem listenersIn_singleton (r : Nat) (T : Cls) (e : Entry) :
    listenersIn bases r T [e] = entryListeners bases r T e := List.flatMap_singleton _ e

private theorem listenersFrom_append (T : Cls) (seen J K : List Entry) :
    listenersFrom bases T seen (J ++ K) = listenersFrom bases T seen J ++ listenersFrom bases T (seen ++ J) K := by
  induction J generalizing seen with
  | nil => simp [listenersFrom]
  | cons e J ih => cases e <;> simp [listenersFrom, ih]

/-- The list only grows. -/
theorem listenerList_prefix (T : Cls) (J K : List Entry) :
    listenerList bases T J <+: listenerList bases T (J ++ K) :=
  ⟨listenersFrom bases T J K, by rw [listenerList, listenerList, listenersFrom_append, List.nil_append]⟩

/-- What the next include appends. -/
theorem listenerList_incl (T : Cls) (J : List Entry) (r : Nat) :
    listenerList bases T (J ++ [.incl r]) = listenerList bases T J ++ listenersIn bases r T J := by
  rw [listenerList, listenersFrom_append, ← listenerList, List.nil_append]
  simp [listenersFrom]

/-- Everything else leaves the list as it is. -/
theorem listenerList_snoc (T : Cls) (J : List Entry) {e : Entry} (he : ∀ r, e ≠ .incl r) :
    listenerList bases T (J ++ [e]) = listenerList bases T J := by
  rw [listenerList, listenersFrom_append, ← listenerList, List.nil_append]
  cases e with
  | incl r => exact absurd rfl (he r)
  | handler r g ord h => simp [listenersFrom]
  | guard e => simp [listenersFrom]

/-- The event mappings and the listeners of a world after a journal. -/
structure Listened (bases : Nat → Option Cls × Option Cls) (w : World) (J : List Entry) : Prop where
  events : ∀ r T, (w.registries r).eventMapping.getD T = listenersIn bases r T J
  filled : ∀ r, (w.registries r).eventMapping.Filled
  listeners : ∀ T, w.managers.listenerManager.listenerMetas.getD T = listenerList bases T J
  listenersFilled : w.managers.listenerManager.listenerMetas.Filled

theorem listened_new (bases : Nat → Option Cls × Option Cls) : Listened bases (.new bases) [] where
  events _ _ := rfl
  filled _ := Dict.filled_empty
  listeners _ := rfl
  listenersFilled := Dict.filled_empty

/-- An action that changes neither the event mappings nor the listeners. -/
private theorem Listened.other (h : Listened bases w J) {w' : World} {K : List Entry}
    (hev : ∀ r, (w'.registries r).eventMapping = (w.registries r).eventMapping)
    (hl : w'.managers.listenerManager = w.managers.listenerManager)
    (hK : ∀ e ∈ K, ∃ e', e = .guard e') : Listened bases w' (J ++ K) := by
  have hin : ∀ r T, listenersIn bases r T K = [] := by
    intro r T
    refine List.flatMap_eq_nil_iff.2 fun e he => ?_
    obtain ⟨e', rfl⟩ := hK e he
    rfl
  have hlist : ∀ T, listenerList bases T (J ++ K) = listenerList bases T J := by
    intro T
    induction K using List.reverseRecOn with
    | nil => rw [List.append_nil]
    | append_singleton K e ih =>
      obtain ⟨e', rfl⟩ := hK e (by simp)
      rw [← List.append_assoc, listenerList_snoc T _ (by simp)]
      refine ih (fun e he => hK e (by simp [he])) fun r T => ?_
      have := hin r T
      rw [listenersIn_append, List.append_eq_nil_iff] at this
      exact this.1
  refine ⟨fun r T => ?_, fun r => ?_, fun T => ?_, ?_⟩
  · rw [hev, listenersIn_append, hin, List.append_nil, h.events]
  · rw [hev]
    exact h.filled r
  · rw [hl, hlist, h.listeners]
  · rw [hl]
    exact h.listenersFilled

theorem guardEntry_isGuard (r : Nat) (g : ClassGraph) (func : Target) (ref : Cls → GuardRef) :
    ∀ e ∈ (guardEntry r g func ref).toList, ∃ e', e = .guard e' := by
  intro e he
  unfold guardEntry at he
  split at he
  · cases he
  · split at he
    · cases he
    · exact ⟨_, List.mem_singleton.1 he⟩

private theorem eventMapping_guardResult (g : ClassGraph) (ord : SetOrder) (r : MessageRegistry) (func : Target)
    (ref : Cls → GuardRef) (made : Nat) :
    (r.attempt (MessageRegistry.guardResult g ord r func ref made)).1.eventMapping = r.eventMapping := by
  unfold MessageRegistry.guardResult MessageRegistry.attempt
  cases r.getGuardtarget g func <;> rfl

private theorem Listened.guardStep (h : Listened bases w J) (r : Nat) (ord : SetOrder) (func : Target)
    (ref ref' : Cls → GuardRef) (made : Nat) :
    Listened bases
      (w.setRegistry r ((w.registries r).attempt
        (MessageRegistry.guardResult w.graph ord (w.registries r) func ref made)).1)
      (J ++ (guardEntry r w.graph func ref').toList) := by
  refine h.other (fun i => ?_) rfl (guardEntry_isGuard r w.graph func ref')
  show (Function.update w.registries r _ i).eventMapping = _
  by_cases hi : i = r
  · subst hi
    rw [Function.update_self, eventMapping_guardResult]
  · rw [Function.update_of_ne hi]

private theorem Listened.registerStep (h : Listened bases w J) (hJ : Journaled bases w J) (r : Nat) (ord : SetOrder)
    (handler : Target) :
    Listened bases (w.setRegistry r ((w.registries r)._register w.graph ord handler).1)
      (J ++ [.handler r w.graph ord handler]) := by
  have hb : ((w.registries r).commandBase, (w.registries r).eventBase) = bases r := by
    rw [(hJ.registry r).commandBase, (hJ.registry r).eventBase]
  have hev := MessageRegistry._register_events w.graph ord (w.registries r) handler
  rw [hb] at hev
  refine ⟨fun i T => ?_, fun i => ?_, fun T => ?_, h.listenersFilled⟩
  · show (Function.update w.registries r _ i).eventMapping.getD T = _
    rw [listenersIn_append, listenersIn_singleton, entryListeners]
    by_cases hi : i = r
    · subst hi
      rw [Function.update_self, hev, getD_appendMetas, h.events, if_pos rfl]
    · rw [Function.update_of_ne hi, h.events, if_neg (Ne.symm hi), List.append_nil]
  · show (Function.update w.registries r _ i).eventMapping.Filled
    by_cases hi : i = r
    · subst hi
      rw [Function.update_self, hev]
      exact filled_appendMetas (h.filled i) _
    · rw [Function.update_of_ne hi]
      exact h.filled i
  · rw [listenerList_snoc T J (by simp)]
    exact h.listeners T

private theorem Listened.inclStep (h : Listened bases w J) (r : Nat) :
    Listened bases (w.exec (.incl r)).1 (J ++ [.incl r]) where
  events i T := by
    have hno : entryListeners bases i T (.incl r) = [] := rfl
    rw [listenersIn_append, listenersIn_singleton, hno, List.append_nil]
    exact h.events i T
  filled := h.filled
  listeners T := by
    show (ListenerManager.includeListeners _ _).listenerMetas.getD T = _
    rw [ListenerManager.getD_includeListeners, listenerList_incl, h.listeners, h.events]
  listenersFilled := ListenerManager.filled_includeListeners h.listenersFilled (h.filled r)

/-- Every action keeps the lists in line with the journal. -/
theorem Listened.step (h : Listened bases w J) (hJ : Journaled bases w J) (a : WorldAct) :
    Listened bases (w.step a) (J ++ (w.entry a).toList) := by
  cases a with
  | define bs =>
    refine h.other (fun r => ?_) ?_ (by simp [World.entry])
    · simp only [World.step, World.exec]
      split <;> rfl
    · simp only [World.step, World.exec]
      split <;> rfl
  | register r ord handler => exact h.registerStep hJ r ord handler
  | preHandle r ord f => exact h.guardStep r ord f _ _ _
  | postHandle r ord f => exact h.guardStep r ord f _ _ _
  | addGuard r ord guard => exact h.guardStep r ord guard.target _ _ _
  | incl r => exact h.inclStep r
  | readGuards T => exact h.other (fun _ => rfl) rfl (by simp [World.entry])

end

/-! ### What the metas of a registration say -/

section Spec

variable {g : ClassGraph} {ord : SetOrder} {base owner T : Cls}

/-- Of distinct types one at most is `T`. -/
private theorem filter_metasOf {derived : List Cls} (hnd : derived.Nodup) (func : Func) (rest : List Param)
    (owner : Option Cls) (T : Cls) :
    ((metasOf derived func rest owner).filter fun m => decide (m.messageType = T)).map FuncMeta.listener =
      if T ∈ derived then [⟨func, owner⟩] else [] := by
  have hfilter : derived.filter (fun t => decide (t = T)) = if T ∈ derived then [T] else [] := by
    rw [List.filter_eq]
    by_cases hT : T ∈ derived
    · rw [if_pos hT, List.count_eq_one_of_mem hnd hT, List.replicate_one]
    · rw [if_neg hT, List.count_eq_zero_of_not_mem hT, List.replicate_zero]
  rw [metasOf, List.filter_map, List.map_map]
  show List.map _ (derived.filter fun t => decide (t = T)) = _
  rw [hfilter]
  by_cases hT : T ∈ derived <;> simp [hT, FuncMeta.listener]

theorem getFuncmetas_listeners {f : Func} {metas : List FuncMeta} (h : getFuncmetas g ord base f = .ok metas) :
    (metas.filter fun m => decide (m.messageType = T)).map FuncMeta.listener =
      (Target.func f).listeners g base T := by
  have hok : extractMetas g ord base (.func f) = .ok metas := h
  have hcov : (∃ m ∈ metas, m.messageType = T ∧ m.handler = f) ↔ Covers g base (.func f) T f :=
    extractMetas_covers hok
  obtain ⟨msg, rest, types, hp, htypes, -, rfl⟩ := getFuncmetas_ok h
  rw [filter_metasOf (ord.iter_nodup (gatherTypes_nodup htypes)), Target.listeners]
  have hiff : T ∈ ord.iter types ↔ Accepts g base f.params T := by
    have hmem : (∃ m ∈ metasOf (ord.iter types) f rest none, m.messageType = T ∧ m.handler = f) ↔
        T ∈ ord.iter types := by
      refine Iff.trans ?_ (exists_mem_metasOf : (∃ m ∈ metasOf (ord.iter types) f rest none, m.messageType = T) ↔ _)
      constructor
      · rintro ⟨m, hm, hT, -⟩
        exact ⟨m, hm, hT⟩
      · rintro ⟨m, hm, hT⟩
        exact ⟨m, hm, hT, (mem_metasOf hm).2.1⟩
    rw [← hmem, hcov]
    simp [Covers]
  by_cases hT : T ∈ ord.iter types
  · rw [if_pos hT, if_pos (hiff.1 hT)]
  · rw [if_neg hT, if_neg fun hacc => hT (hiff.2 hacc)]

private theorem methodMetas_listeners {m : String × Func} {metas : List FuncMeta}
    (h : methodMetas g ord base owner m = .ok metas) :
    (metas.filter fun x => decide (x.messageType = T)).map FuncMeta.listener =
      if isPrivate m.1 = false ∧ Accepts g base m.2.params.tail T then [⟨m.2, some owner⟩] else [] := by
  have hacc := methodMetas_accepts h (T := T)
  have hiff : (isPrivate m.1 = false ∧ ∃ self params, m.2.params = self :: params ∧ Accepts g base params T) ↔
      isPrivate m.1 = false ∧ Accepts g base m.2.params.tail T := by
    refine and_congr_right fun _ => ?_
    constructor
    · rintro ⟨self, params, hp, hacc⟩
      rw [hp]
      exact hacc
    · intro hacc
      cases hp : m.2.params with
      | nil =>
        rw [hp] at hacc
        obtain ⟨msg, rest, hnil, -⟩ := hacc
        cases hnil
      | cons self params =>
        rw [hp] at hacc
        exact ⟨self, params, rfl, hacc⟩
  rw [hiff] at hacc
  rcases methodMetas_ok h with rfl | ⟨self, msg, rest, types, -, -, htypes, -, rfl⟩
  · -- no meta, so nothing is accepted
    rw [if_neg fun hc => by simpa using hacc.2 hc]
    rfl
  · rw [filter_metasOf (ord.iter_nodup (gatherTypes_nodup htypes))]
    rw [exists_mem_metasOf] at hacc
    by_cases hT : T ∈ ord.iter types
    · rw [if_pos hT, if_pos (hacc.1 hT)]
    · rw [if_neg hT, if_neg fun hc => hT (hacc.2 hc)]

private theorem methodMetasLoop_listeners {ms : List (String × Func)} {metas : List FuncMeta}
    (h : methodMetasLoop g ord base owner ms = .ok metas) :
    (metas.filter fun x => decide (x.messageType = T)).map FuncMeta.listener =
      (ms.filter fun m => !isPrivate m.1 && decide (Accepts g base m.2.params.tail T)).map fun m =>
        ⟨m.2, some owner⟩ := by
  induction ms generalizing metas with
  | nil =>
    cases h
    rfl
  | cons m ms ih =>
    obtain ⟨l, rest, hl, hrest, rfl⟩ := methodMetasLoop_cons h
    rw [List.filter_append, List.map_append, methodMetas_listeners hl, ih hrest]
    by_cases hc : isPrivate m.1 = false ∧ Accepts g base m.2.params.tail T
    · simp [hc]
    · rw [if_neg hc, List.nil_append, List.filter_cons_of_neg]
      simpa using hc

/-- The metas for `T` of a handler are those of its functions that take a `T`. -/
theorem extractMetas_listeners {h : Target} {metas : List FuncMeta} (hok : extractMetas g ord base h = .ok metas) :
    (metas.filter fun m => decide (m.messageType = T)).map FuncMeta.listener = h.listeners g base T := by
  cases h with
  | func f => exact getFuncmetas_listeners hok
  | cls c => exact methodMetasLoop_listeners (getMethodmetas_ok hok).1
  | other i => cases hok

end Spec

/-! ### The listeners of a type -/

section Registered

variable (bases : Nat → Option Cls × Option Cls)

/-- The functions an entry registers in `r` as listeners for `T`. -/
def entryFunctions (r : Nat) (T : Cls) : Entry → List Listener
  | .handler r' g ord h =>
    match (bases r).2, eventPhase g ord (bases r) h with
    | some base, .ok _ => if r' = r then h.listeners g base T else []
    | _, _ => []
  | _ => []

/-- The includes of a journal, each with the journal before it; `seen` is the journal before all of them. -/
def includesFrom (seen : List Entry) : List Entry → List (List Entry × Nat)
  | [] => []
  | .incl r :: J => (seen, r) :: includesFrom (seen ++ [.incl r]) J
  | e :: J => includesFrom (seen ++ [e]) J

/-- The listeners of `T`: for each include the functions registered before it in the included registry, in order. -/
def registeredListeners (T : Cls) (J : List Entry) : List Listener :=
  (includesFrom [] J).flatMap fun i => i.1.flatMap (entryFunctions bases i.2 T)

end Registered

section

variable {bases : Nat → Option Cls × Option Cls} {T : Cls}

/-- An event phase that returns has extracted the metas of the event base. -/
private theorem phase_of_eventPhase {g : ClassGraph} {ord : SetOrder} {b : Option Cls × Option Cls} {h : Target}
    {metas : List FuncMeta} (hev : eventPhase g ord b h = .ok metas) : phase g ord b.2 h = .ok metas := by
  unfold eventPhase at hev
  split at hev
  · split at hev
    · exact hev
    · cases hev
  · exact hev

private theorem entryListeners_functions (r : Nat) (e : Entry) :
    (entryListeners bases r T e).map FuncMeta.listener = entryFunctions bases r T e := by
  cases e with
  | incl r' => rfl
  | guard e => rfl
  | handler r' g ord h =>
    by_cases hr : r' = r
    · cases hev : eventPhase g ord (bases r) h with
      | error e => simp [entryListeners, entryFunctions, listenerMetas, hev]
      | ok metas =>
        have hphase := phase_of_eventPhase hev
        cases hb : (bases r).2 with
        | none =>
          rw [hb] at hphase
          have hnil : [] = metas := Except.ok.inj hphase
          simp [entryListeners, entryFunctions, listenerMetas, hev, hb, ← hnil]
        | some base =>
          rw [hb] at hphase
          have hok : extractMetas g ord base h = .ok metas := hphase
          simpa [entryListeners, entryFunctions, listenerMetas, hev, hb, hr] using extractMetas_listeners hok
    · cases hev : eventPhase g ord (bases r) h <;> cases hb : (bases r).2 <;>
        simp [entryListeners, entryFunctions, hev, hb, hr]

private theorem listenersIn_functions (r : Nat) (J : List Entry) :
    (listenersIn bases r T J).map FuncMeta.listener = J.flatMap (entryFunctions bases r T) := by
  rw [listenersIn, List.map_flatMap]
  exact List.flatMap_congr fun e _ => entryListeners_functions r e

private theorem listenersFrom_functions (seen J : List Entry) :
    (listenersFrom bases T seen J).map FuncMeta.listener =
      (includesFrom seen J).flatMap fun i => i.1.flatMap (entryFunctions bases i.2 T) := by
  induction J generalizing seen with
  | nil => rfl
  | cons e J ih =>
    cases e with
    | incl r =>
      rw [listenersFrom, includesFrom, List.map_append, List.flatMap_cons, ih, listenersIn_functions]
    | handler r g ord h => exact ih _
    | guard e => exact ih _

/-- The metas in the list of `T` are those of its listeners. -/
theorem listenerList_functions (T : Cls) (J : List Entry) :
    (listenerList bases T J).map FuncMeta.listener = registeredListeners bases T J := listenersFrom_functions [] J

theorem listenerList_eq_nil {J : List Entry} : listenerList bases T J = [] ↔ registeredListeners bases T J = [] := by
  rw [← listenerList_functions, List.map_eq_nil_iff]

end

end Anywise
