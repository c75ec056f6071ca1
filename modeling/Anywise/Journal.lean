import Anywise.Extraction
import Anywise.World

/-!
# The journal of a run

The journal of a run lists the registrations and includes in it, each registration with the classes that existed
when it was made.  The maps of the world are functions of the journal (`journaled_run`): what a registry holds is
what was registered in it, and what the `Anywise` holds is, include after include, what the included registry held
at that moment.
-/

namespace Anywise

/-! ### Entries -/

/-- A guard registration: its annotation, the classes that existed, what the annotation stood for then, and what
was appended to the list of each of these. -/
structure GuardReg where
  registry : Nat
  annotation : Annotation
  graph : ClassGraph
  targets : List Cls
  ref : Cls → GuardRef
  gathered : gatherTypes graph annotation = .ok targets

/-- The meta it appends to the list of `T`. -/
def GuardReg.metaOf (e : GuardReg) (T : Cls) : GuardMeta := ⟨T, e.ref T⟩

inductive Entry
  /-- a handler was given to a registry -/
  | handler (r : Nat) (g : ClassGraph) (ord : SetOrder) (h : Target)
  /-- a guard was registered -/
  | guard (e : GuardReg)
  /-- a registry was included -/
  | incl (r : Nat)

/-- The annotation `get_guardtarget` looks at. -/
def guardAnnotation : Target → Option Annotation
  | .cls c => (c.call.drop 1).head?.map Param.annotation
  | .func f => f.params.head?.map Param.annotation
  | .other _ => none

/-- The entry of a guard registration, if it succeeds. -/
def guardEntry (r : Nat) (g : ClassGraph) (func : Target) (ref : Cls → GuardRef) : Option Entry :=
  match guardAnnotation func with
  | none => none
  | some a =>
    match h : gatherTypes g a with
    | .error _ => none
    | .ok targets => some (.guard ⟨r, a, g, targets, ref, h⟩)

namespace World

/-- What an action adds to the journal. -/
def entry (w : World) : WorldAct → Option Entry
  | .define _ => none
  | .register r ord h => some (.handler r w.graph ord h)
  | .preHandle r _ f =>
    guardEntry r w.graph f fun t => .obj (.guard r (w.registries r).guardsMade t (some f.id) none)
  | .postHandle r _ f =>
    guardEntry r w.graph f fun t => .obj (.guard r (w.registries r).guardsMade t none (some f.id))
  | .addGuard r _ guard => guardEntry r w.graph guard.target fun _ => guard.ref
  | .incl r => some (.incl r)
  | .readGuards _ => none

/-- The journal of a run. -/
def journal (w : World) : List WorldAct → List Entry
  | [] => []
  | a :: as => (w.entry a).toList ++ (w.step a).journal as

end World

/-- The guard registrations of a registry. -/
def guardsIn (r : Nat) (J : List Entry) : List GuardReg :=
  J.filterMap fun
    | .guard e => if e.registry = r then some e else none
    | _ => none

/-- What the includes of a journal take over, `seen` being the journal before it. -/
def includedFrom (seen : List Entry) : List Entry → List GuardReg
  | [] => []
  | .incl r :: J => guardsIn r seen ++ includedFrom (seen ++ [.incl r]) J
  | e :: J => includedFrom (seen ++ [e]) J

/-- The guard registrations an `Anywise` holds: in include order, then in registration order. -/
def includedGuards (J : List Entry) : List GuardReg := includedFrom [] J

/-- The registrations among `es` that stood for `T`, each with its meta. -/
def guardsFor (T : Cls) (es : List GuardReg) : List GuardMeta :=
  (es.filter fun e => decide (T ∈ e.targets)).map (·.metaOf T)

/-- The guard list of a `T` after a journal. -/
def guardList (J : List Entry) (T : Cls) : List GuardMeta :=
  guardsFor Cls.any (includedGuards J) ++ guardsFor T (includedGuards J)

/-- The meta a handler gets for `T` in a registry with the command base `base`. -/
def metaFor (g : ClassGraph) (ord : SetOrder) (base : Option Cls) (h : Target) (T : Cls) : Option FuncMeta :=
  match base with
  | none => none
  | some b =>
    match extractMetas g ord b h with
    | .error _ => none
    | .ok metas => Dict.lastOf T (metas.map fun m => (m.messageType, m))

/-- The meta of the last registration in `r` that covers `T`, newest entry first. -/
def registered (bases : Nat → Option Cls × Option Cls) (r : Nat) (T : Cls) : List Entry → Option FuncMeta
  | [] => none
  | .handler r' g ord h :: J =>
    (if r' = r then metaFor g ord (bases r).1 h T else none).or (registered bases r T J)
  | _ :: J => registered bases r T J

/-- The meta that answers for `T` after a journal, newest entry first. -/
def resolved (bases : Nat → Option Cls × Option Cls) (T : Cls) : List Entry → Option FuncMeta
  | [] => none
  | .incl r :: J => (registered bases r T J).or (resolved bases T J)
  | _ :: J => resolved bases T J

theorem metaFor_of_phase {g : ClassGraph} {ord : SetOrder} {base : Option Cls} {h : Target} {metas : List FuncMeta}
    (hp : phase g ord base h = .ok metas) (T : Cls) :
    metaFor g ord base h T = Dict.lastOf T (metas.map fun m => (m.messageType, m)) := by
  cases base with
  | none =>
    cases hp
    rfl
  | some b =>
    have hx : extractMetas g ord b h = .ok metas := hp
    simp [metaFor, hx]

/-! ### What one action does to a registry -/

namespace MessageRegistry

variable {g : ClassGraph} {ord : SetOrder} {r r' : MessageRegistry}

/-- What no handler registration changes. -/
structure SameGuards (r r' : MessageRegistry) : Prop where
  id : r'.id = r.id
  commandBase : r'.commandBase = r.commandBase
  eventBase : r'.eventBase = r.eventBase
  guardMapping : r'.guardMapping = r.guardMapping
  guardsMade : r'.guardsMade = r.guardsMade

theorem registerCommandhanlders_ok {h : Target} (hr : r.registerCommandhanlders g ord h = .ok r') :
    SameGuards r r' ∧ r'.eventMapping = r.eventMapping ∧
      ∀ T, r'.commandMapping.get? T = (metaFor g ord r.commandBase h T).or (r.commandMapping.get? T) := by
  obtain ⟨metas, hp⟩ := registerCommandhanlders_eq_ok hr
  rw [registerCommandhanlders_of_phase hp] at hr
  cases hr
  refine ⟨⟨rfl, rfl, rfl, rfl, rfl⟩, rfl, fun T => ?_⟩
  rw [Dict.get?_update_items, Dict.get?_update, metaFor_of_phase hp]
  simp

theorem metaFor_of_error {h : Target} {e : PyErr} (hr : r.registerCommandhanlders g ord h = .error e) (T : Cls) :
    metaFor g ord r.commandBase h T = none := by
  have hp := registerCommandhanlders_error_iff.1 hr
  cases hb : r.commandBase with
  | none => rfl
  | some b =>
    have hx : extractMetas g ord b h = .error e := by
      rw [hb] at hp
      exact hp
    simp [metaFor, hx]

theorem registerEventlisteners_ok {h : Target} (hr : r.registerEventlisteners g ord h = .ok r') :
    SameGuards r r' ∧ r'.commandMapping = r.commandMapping := by
  obtain ⟨metas, hp⟩ := registerEventlisteners_eq_ok hr
  rw [registerEventlisteners_of_phase hp] at hr
  cases hr
  exact ⟨⟨rfl, rfl, rfl, rfl, rfl⟩, rfl⟩

theorem SameGuards.refl (r : MessageRegistry) : SameGuards r r := ⟨rfl, rfl, rfl, rfl, rfl⟩

theorem SameGuards.trans {r r' r'' : MessageRegistry} (h : SameGuards r r') (h' : SameGuards r' r'') :
    SameGuards r r'' :=
  ⟨h'.id.trans h.id, h'.commandBase.trans h.commandBase, h'.eventBase.trans h.eventBase,
    h'.guardMapping.trans h.guardMapping, h'.guardsMade.trans h.guardsMade⟩

/-- A handler registration puts the metas of the handler in front of the command mapping, also when it raises. -/
theorem _register_spec (g : ClassGraph) (ord : SetOrder) (r : MessageRegistry) (h : Target) :
    SameGuards r (r._register g ord h).1 ∧
      ∀ T, (r._register g ord h).1.commandMapping.get? T =
        (metaFor g ord r.commandBase h T).or (r.commandMapping.get? T) := by
  unfold _register
  split
  · rename_i e he
    have hnone := metaFor_of_error he
    split
    · split
      · exact ⟨.refl r, fun T => by rw [hnone, Option.none_or]⟩
      · rename_i r' hr'
        obtain ⟨hs, hc⟩ := registerEventlisteners_ok hr'
        exact ⟨hs, fun T => by rw [hnone, Option.none_or, hc]⟩
    · exact ⟨.refl r, fun T => by rw [hnone, Option.none_or]⟩
  · rename_i r' hr'
    obtain ⟨hs, -, hc⟩ := registerCommandhanlders_ok hr'
    split
    · split <;> exact ⟨hs, hc⟩
    · rename_i r'' hr''
      obtain ⟨hs', hc'⟩ := registerEventlisteners_ok hr''
      exact ⟨hs.trans hs', fun T => by rw [hc', hc]⟩

theorem getD_appendGuards {targets : List Cls} (ht : targets.Nodup) (d : Dict Cls (List GuardMeta))
    (ref : Cls → GuardRef) (T : Cls) :
    (appendGuards d (ord.iter targets) ref).getD T = d.getD T ++ if T ∈ targets then [⟨T, ref T⟩] else [] := by
  unfold appendGuards
  rw [Dict.getD_foldl_extend _ (fun t => (⟨t, ref t⟩ : GuardMeta)) (ord.iter_nodup ht)]
  simp

/-- `get_guardtarget` gathers the types of the guard annotation. -/
theorem getGuardtarget_eq (r : MessageRegistry) (func : Target) :
    r.getGuardtarget g func =
      match guardAnnotation func with
      | none => .error (.messageHandlerNotFound r.commandBase func.id)
      | some a => gatherTypes g a := by
  unfold getGuardtarget guardAnnotation
  cases func with
  | other i => rfl
  | func f =>
    simp only
    cases f.params <;> rfl
  | cls c =>
    simp only
    cases c.call.drop 1 <;> rfl

end MessageRegistry

/-- The journal entry of a guard registration says what `get_guardtarget` answered. -/
theorem guardEntry_of_ok (i : Nat) (ref : Cls → GuardRef) {r : MessageRegistry} {g : ClassGraph} {func : Target}
    {targets : List Cls} (h : r.getGuardtarget g func = .ok targets) :
    ∃ e, guardEntry i g func ref = some (.guard e) ∧ e.registry = i ∧ e.targets = targets ∧ e.ref = ref ∧
      e.graph = g ∧ guardAnnotation func = some e.annotation := by
  rw [MessageRegistry.getGuardtarget_eq] at h
  unfold guardEntry
  cases ha : guardAnnotation func with
  | none =>
    rw [ha] at h
    cases h
  | some a =>
    rw [ha] at h
    simp only at h ⊢
    split
    · rename_i e he
      rw [he] at h
      cases h
    · rename_i ts hts
      rw [hts] at h
      cases h
      exact ⟨_, rfl, rfl, rfl, rfl, rfl, rfl⟩

theorem guardEntry_of_error {r : MessageRegistry} {i : Nat} {g : ClassGraph} {func : Target} {ref : Cls → GuardRef}
    {e : PyErr} (h : r.getGuardtarget g func = .error e) : guardEntry i g func ref = none := by
  rw [MessageRegistry.getGuardtarget_eq] at h
  unfold guardEntry
  cases ha : guardAnnotation func with
  | none => rfl
  | some a =>
    rw [ha] at h
    simp only at h ⊢
    split
    · rfl
    · rename_i ts hts
      rw [hts] at h
      cases h

/-! ### Resolved metas -/

theorem messageType_of_metaFor {g : ClassGraph} {ord : SetOrder} {base : Option Cls} {h : Target} {T : Cls}
    {m : FuncMeta} (hm : metaFor g ord base h T = some m) : m.messageType = T := by
  unfold metaFor at hm
  split at hm
  · cases hm
  · split at hm
    · cases hm
    · obtain ⟨x, -, hx⟩ := List.mem_map.1 (Dict.mem_of_lastOf hm)
      obtain ⟨rfl, rfl⟩ := Prod.mk.inj hx
      rfl

theorem messageType_of_registered {bases : Nat → Option Cls × Option Cls} {r : Nat} {T : Cls} {J : List Entry}
    {m : FuncMeta} (h : registered bases r T J = some m) : m.messageType = T := by
  induction J with
  | nil => cases h
  | cons e J ih =>
    cases e with
    | guard _ => exact ih h
    | incl _ => exact ih h
    | handler r' g ord t =>
      rw [registered, Option.or_eq_some_iff] at h
      rcases h with h | ⟨-, h⟩
      · split at h
        · exact messageType_of_metaFor h
        · cases h
      · exact ih h

/-- The meta that answers for `T` is one made for `T`. -/
theorem messageType_of_resolved {bases : Nat → Option Cls × Option Cls} {T : Cls} {J : List Entry} {m : FuncMeta}
    (h : resolved bases T J = some m) : m.messageType = T := by
  induction J with
  | nil => cases h
  | cons e J ih =>
    cases e with
    | guard _ => exact ih h
    | handler _ _ _ _ => exact ih h
    | incl r =>
      rw [resolved, Option.or_eq_some_iff] at h
      rcases h with h | ⟨-, h⟩
      · exact messageType_of_registered h
      · exact ih h

/-! ### Lists of registrations -/

theorem guardsFor_append (T : Cls) (es fs : List GuardReg) :
    guardsFor T (es ++ fs) = guardsFor T es ++ guardsFor T fs := by
  simp [guardsFor]

theorem guardsIn_append (r : Nat) (J K : List Entry) : guardsIn r (J ++ K) = guardsIn r J ++ guardsIn r K :=
  List.filterMap_append

private theorem includedFrom_append (seen J K : List Entry) :
    includedFrom seen (J ++ K) = includedFrom seen J ++ includedFrom (seen ++ J) K := by
  induction J generalizing seen with
  | nil => simp [includedFrom]
  | cons e J ih => cases e <;> simp [includedFrom, ih]

/-- What the next include takes over. -/
theorem includedGuards_incl (J : List Entry) (r : Nat) :
    includedGuards (J ++ [.incl r]) = includedGuards J ++ guardsIn r J := by
  simp [includedGuards, includedFrom_append, includedFrom]

/-- Everything else leaves the included registrations as they are. -/
theorem includedGuards_snoc (J : List Entry) {e : Entry} (he : ∀ r, e ≠ .incl r) :
    includedGuards (J ++ [e]) = includedGuards J := by
  rw [includedGuards, includedFrom_append]
  cases e with
  | incl r => exact absurd rfl (he r)
  | handler r g ord h => simp [includedFrom, includedGuards]
  | guard e => simp [includedFrom, includedGuards]

theorem mem_guardsIn {r : Nat} {J : List Entry} {e : GuardReg} :
    e ∈ guardsIn r J ↔ .guard e ∈ J ∧ e.registry = r := by
  unfold guardsIn
  rw [List.mem_filterMap]
  constructor
  · rintro ⟨x, hx, he⟩
    split at he
    · split at he
      · rename_i hr
        cases he
        exact ⟨hx, hr⟩
      · cases he
    · cases he
  · rintro ⟨he, hr⟩
    exact ⟨_, he, by simp [hr]⟩

/-- A registration followed by an include of its registry is taken over. -/
theorem mem_includedGuards {J₁ J₂ : List Entry} {e : GuardReg} (h : .incl e.registry ∈ J₂) :
    e ∈ includedGuards (J₁ ++ .guard e :: J₂) := by
  -- the journal before such an include already has the registration
  obtain ⟨K₁, K₂, rfl⟩ := List.append_of_mem h
  have hsplit : J₁ ++ .guard e :: (K₁ ++ .incl e.registry :: K₂) =
      (J₁ ++ .guard e :: K₁ ++ [.incl e.registry]) ++ K₂ := by simp
  rw [hsplit, includedGuards, includedFrom_append]
  refine List.mem_append_left _ ?_
  rw [← includedGuards, includedGuards_incl]
  exact List.mem_append_right _ (mem_guardsIn.2 ⟨by simp, rfl⟩)

namespace World

theorem run_append (w : World) (as bs : List WorldAct) : w.run (as ++ bs) = (w.run as).run bs :=
  List.foldl_append

end World

/-! ### The maps of a registry -/

namespace MessageRegistry

variable {g : ClassGraph} {ord : SetOrder} {r : MessageRegistry}

private theorem get?_appendGuards_eq_none {targets : List Cls} {ref : Cls → GuardRef} {k : Cls} (hk : k ∉ targets)
    (d : Dict Cls (List GuardMeta)) (hd : d.get? k = none) : (appendGuards d targets ref).get? k = none := by
  unfold appendGuards
  induction targets generalizing d with
  | nil => exact hd
  | cons t targets ih =>
    rw [List.mem_cons, not_or] at hk
    rw [List.foldl_cons]
    refine ih hk.2 _ ?_
    rw [Dict.extend, Dict.get?_set, if_neg (Ne.symm hk.1), hd]

/-- What no guard registration changes. -/
structure SameHandlers (r r' : MessageRegistry) : Prop where
  id : r'.id = r.id
  commandBase : r'.commandBase = r.commandBase
  eventBase : r'.eventBase = r.eventBase
  commandMapping : r'.commandMapping = r.commandMapping

/-- A guard registration appends to the lists of the targets it gathers. -/
def guardResult (g : ClassGraph) (ord : SetOrder) (r : MessageRegistry) (func : Target) (ref : Cls → GuardRef)
    (made : Nat) : Except PyErr MessageRegistry :=
  match r.getGuardtarget g func with
  | .error e => .error e
  | .ok targets =>
    .ok { r with
      guardMapping := appendGuards r.guardMapping (ord.iter targets) ref
      guardsMade := made }

theorem preHandle_eq (r : MessageRegistry) (f : Target) :
    r.preHandle g ord f = guardResult g ord r f
      (fun t => .obj (.guard r.id r.guardsMade t (some f.id) none)) (r.guardsMade + 1) := rfl

theorem postHandle_eq (r : MessageRegistry) (f : Target) :
    r.postHandle g ord f = guardResult g ord r f
      (fun t => .obj (.guard r.id r.guardsMade t none (some f.id))) (r.guardsMade + 1) := rfl

theorem addGuard_eq (r : MessageRegistry) (guard : GuardArg) :
    r.addGuard g ord guard = guardResult g ord r guard.target (fun _ => guard.ref) r.guardsMade := rfl

theorem getGuardtarget_ok {func : Target} {targets : List Cls} (h : r.getGuardtarget g func = .ok targets) :
    ∃ a, guardAnnotation func = some a ∧ gatherTypes g a = .ok targets := by
  rw [getGuardtarget_eq] at h
  split at h
  · cases h
  · rename_i a ha
    exact ⟨a, ha, h⟩

theorem guardResult_spec (g : ClassGraph) (ord : SetOrder) (r : MessageRegistry) (func : Target)
    (ref : Cls → GuardRef) (made i : Nat) :
    let r' := (r.attempt (guardResult g ord r func ref made)).1
    SameHandlers r r' ∧
      (∀ T, r'.guardMapping.getD T =
        r.guardMapping.getD T ++ guardsFor T (guardsIn i (guardEntry i g func ref).toList)) ∧
      (r.guardMapping.get? Cls.object = none → r'.guardMapping.get? Cls.object = none) := by
  unfold guardResult
  cases h : r.getGuardtarget g func with
  | error e =>
    refine ⟨⟨rfl, rfl, rfl, rfl⟩, fun T => ?_, fun hno => hno⟩
    simp [attempt, guardEntry_of_error h, guardsIn, guardsFor]
  | ok targets =>
    obtain ⟨a, -, ha⟩ := getGuardtarget_ok h
    obtain ⟨e, he, hi, rfl, rfl, -, -⟩ := guardEntry_of_ok i ref h
    refine ⟨⟨rfl, rfl, rfl, rfl⟩, fun T => ?_, fun hno => ?_⟩
    · rw [he]
      simp only [attempt]
      rw [getD_appendGuards (gatherTypes_nodup ha)]
      by_cases hT : T ∈ e.targets <;> simp [guardsIn, guardsFor, hi, hT, GuardReg.metaOf]
    · exact get?_appendGuards_eq_none (fun hmem => object_notMem_gatherTypes ha (ord.mem_iter.1 hmem)) _ hno

end MessageRegistry

/-! ### The journal determines the maps -/

/-- The maps of registry `i` after a journal. -/
structure RegistryJournal (bases : Nat → Option Cls × Option Cls) (i : Nat) (r : MessageRegistry)
    (J : List Entry) : Prop where
  id : r.id = i
  commandBase : r.commandBase = (bases i).1
  eventBase : r.eventBase = (bases i).2
  guards : ∀ T, r.guardMapping.getD T = guardsFor T (guardsIn i J)
  noObject : r.guardMapping.get? Cls.object = none
  handlers : ∀ T, r.commandMapping.get? T = registered bases i T J.reverse

/-- The maps of a world after a journal. -/
structure Journaled (bases : Nat → Option Cls × Option Cls) (w : World) (J : List Entry) : Prop where
  registry : ∀ i, RegistryJournal bases i (w.registries i) J
  globals : w.managers.handlerManager.globalGuards = guardsFor Cls.any (includedGuards J)
  guards : ∀ T, w.managers.handlerManager.guardMapping.getD T =
    if HandlerManager.isGlobal T then [] else guardsFor T (includedGuards J)
  handlers : ∀ T, w.managers.handlerManager.handlerMetas.get? T = resolved bases T J.reverse
  graphs : ∀ e, .guard e ∈ J → e.graph.Extends w.graph

section

variable {bases : Nat → Option Cls × Option Cls} {w : World} {J : List Entry}

theorem journaled_new (bases : Nat → Option Cls × Option Cls) : Journaled bases (.new bases) [] where
  registry i := ⟨rfl, rfl, rfl, fun _ => rfl, rfl, fun _ => rfl⟩
  globals := rfl
  guards T := by simp [World.new, Managers.new, HandlerManager.new, includedGuards, includedFrom, guardsFor]
  handlers _ := rfl
  graphs e he := by cases he

/-- What another registry is given does not concern registry `i`. -/
private theorem RegistryJournal.other {i : Nat} {r : MessageRegistry} (h : RegistryJournal bases i r J) {e : Entry}
    (hg : guardsIn i [e] = []) (hh : ∀ T, registered bases i T (e :: J.reverse) = registered bases i T J.reverse) :
    RegistryJournal bases i r (J ++ [e]) :=
  { h with
    guards := fun T => by rw [h.guards, guardsIn_append, hg, List.append_nil]
    handlers := fun T => by rw [h.handlers, List.reverse_append, List.reverse_singleton, List.singleton_append, hh] }

/-- An action on registry `r` whose result is described by the entry. -/
private theorem Journaled.setRegistry (h : Journaled bases w J) {r : Nat} {reg : MessageRegistry} {e : Entry}
    (hreg : RegistryJournal bases r reg (J ++ [e])) (he : ∀ i, e ≠ .incl i)
    (hg : ∀ i, i ≠ r → guardsIn i [e] = [])
    (hh : ∀ i, i ≠ r → ∀ T, registered bases i T (e :: J.reverse) = registered bases i T J.reverse)
    (hgr : ∀ e', e = .guard e' → e'.graph.Extends w.graph) :
    Journaled bases (w.setRegistry r reg) (J ++ [e]) where
  registry i := by
    show RegistryJournal bases i (Function.update w.registries r reg i) _
    by_cases hi : i = r
    · subst hi
      rwa [Function.update_self]
    · rw [Function.update_of_ne hi]
      exact (h.registry i).other (hg i hi) (hh i hi)
  globals := by
    rw [includedGuards_snoc J he]
    exact h.globals
  guards T := by
    rw [includedGuards_snoc J he]
    exact h.guards T
  handlers T := by
    rw [List.reverse_append, List.reverse_singleton, List.singleton_append]
    refine (h.handlers T).trans ?_
    cases e with
    | incl i => exact absurd rfl (he i)
    | handler _ _ _ _ => rfl
    | guard _ => rfl
  graphs e' he' := by
    rcases List.mem_append.1 he' with he' | he'
    · exact h.graphs e' he'
    · exact hgr e' (List.mem_singleton.1 he').symm

private theorem Journaled.guardStep (h : Journaled bases w J) (r : Nat) (ord : SetOrder) (func : Target)
    (ref : Cls → GuardRef) (made : Nat) :
    Journaled bases
      (w.setRegistry r ((w.registries r).attempt
        (MessageRegistry.guardResult w.graph ord (w.registries r) func ref made)).1)
      (J ++ (guardEntry r w.graph func ref).toList) := by
  have hr := h.registry r
  obtain ⟨hs, hgd, hno⟩ :=
    MessageRegistry.guardResult_spec w.graph ord (w.registries r) func ref made r
  cases hent : (w.registries r).getGuardtarget w.graph func with
  | error e =>
    rw [guardEntry_of_error hent, Option.toList_none, List.append_nil]
    rw [MessageRegistry.guardResult, hent]
    show Journaled bases (w.setRegistry r (w.registries r)) J
    rw [World.setRegistry, Function.update_eq_self]
    exact h
  | ok targets =>
    obtain ⟨e, he, hi, -, -, hgraph, -⟩ := guardEntry_of_ok r ref hent
    rw [he] at hgd ⊢
    rw [Option.toList_some] at hgd ⊢
    refine h.setRegistry ⟨hs.id.trans hr.id, hs.commandBase.trans hr.commandBase, hs.eventBase.trans hr.eventBase,
      fun T => ?_, hno hr.noObject, fun T => ?_⟩ (by simp) (fun i hne => ?_) (fun i _ T => rfl) ?_
    · rw [hgd, hr.guards, guardsIn_append, guardsFor_append]
    · rw [hs.commandMapping, hr.handlers, List.reverse_append]
      rfl
    · simp [guardsIn, hi, Ne.symm hne]
    · rintro e' he'
      cases he'
      rw [hgraph]
      exact .refl _

private theorem Journaled.registerStep (h : Journaled bases w J) (r : Nat) (ord : SetOrder) (handler : Target) :
    Journaled bases (w.setRegistry r ((w.registries r)._register w.graph ord handler).1)
      (J ++ [.handler r w.graph ord handler]) := by
  have hr := h.registry r
  obtain ⟨hs, hc⟩ := MessageRegistry._register_spec w.graph ord (w.registries r) handler
  refine h.setRegistry ⟨hs.id.trans hr.id, hs.commandBase.trans hr.commandBase, hs.eventBase.trans hr.eventBase,
    fun T => ?_, by rw [hs.guardMapping, hr.noObject], fun T => ?_⟩ (by simp) (fun i _ => rfl) (fun i hne T => ?_)
    (by simp)
  · rw [hs.guardMapping, hr.guards, guardsIn_append]
    simp [guardsIn]
  · rw [hc, hr.commandBase, hr.handlers, List.reverse_append]
    simp [registered]
  · simp [registered, Ne.symm hne]

private theorem Journaled.inclStep (h : Journaled bases w J) (r : Nat) :
    Journaled bases (w.exec (.incl r)).1 (J ++ [.incl r]) where
  registry i := (h.registry i).other rfl fun _ => rfl
  globals := by
    have hr := h.registry r
    show (HandlerManager.includeGuards _ _).globalGuards = _
    rw [HandlerManager.globalGuards_includeGuards _ hr.noObject, includedGuards_incl, guardsFor_append, hr.guards]
    exact congrArg (· ++ _) h.globals
  guards T := by
    have hr := h.registry r
    show (HandlerManager.includeGuards _ _).guardMapping.getD T = _
    rw [HandlerManager.getD_includeGuards, includedGuards_incl, guardsFor_append, hr.guards]
    have hg := h.guards T
    by_cases hT : HandlerManager.isGlobal T
    · simpa [HandlerManager.includeHandlers, hT] using hg
    · simpa [HandlerManager.includeHandlers, hT] using hg
  handlers T := by
    have hr := h.registry r
    show (HandlerManager.includeGuards _ _).handlerMetas.get? T = _
    rw [HandlerManager.handlerMetas_includeGuards, HandlerManager.includeHandlers, Dict.get?_update_items,
      hr.handlers, List.reverse_append, List.reverse_singleton, List.singleton_append, resolved, h.handlers]
  graphs e he := h.graphs e (by simpa using he)

/-- Every action keeps the maps in line with the journal. -/
theorem Journaled.step (h : Journaled bases w J) (a : WorldAct) :
    Journaled bases (w.step a) (J ++ (w.entry a).toList) := by
  cases a with
  | define bs =>
    rw [World.entry, Option.toList_none, List.append_nil]
    by_cases hd : w.graph.Definable bs
    · simp only [World.step, World.exec, hd, ↓reduceIte]
      exact ⟨h.registry, h.globals, h.guards, h.handlers, fun e he => (h.graphs e he).define bs⟩
    · simpa only [World.step, World.exec, hd, ↓reduceIte] using h
  | register r ord handler => exact h.registerStep r ord handler
  | preHandle r ord f =>
    have := h.guardStep r ord f
      (fun t => .obj (.guard (w.registries r).id (w.registries r).guardsMade t (some f.id) none))
      ((w.registries r).guardsMade + 1)
    rw [(h.registry r).id] at this
    simpa [World.step, World.exec, World.entry, MessageRegistry.preHandle_eq, (h.registry r).id] using this
  | postHandle r ord f =>
    have := h.guardStep r ord f
      (fun t => .obj (.guard (w.registries r).id (w.registries r).guardsMade t none (some f.id)))
      ((w.registries r).guardsMade + 1)
    rw [(h.registry r).id] at this
    simpa [World.step, World.exec, World.entry, MessageRegistry.postHandle_eq, (h.registry r).id] using this
  | addGuard r ord guard => exact h.guardStep r ord guard.target (fun _ => guard.ref) (w.registries r).guardsMade
  | incl r => exact h.inclStep r
  | readGuards T =>
    -- the key inserted holds the empty list
    rw [World.entry, Option.toList_none, List.append_nil]
    refine ⟨h.registry, h.globals, fun U => ?_, h.handlers, h.graphs⟩
    exact (Dict.getD_touch _ T U).trans (h.guards U)

theorem guardsFor_object (es : List GuardReg) : guardsFor Cls.object es = [] := by
  unfold guardsFor
  rw [List.filter_eq_nil_iff.2 fun e _ => by simpa using object_notMem_gatherTypes e.gathered, List.map_nil]

/-- The guard list a send reads. -/
theorem Journaled.commandGuards (h : Journaled bases w J) {T : Cls} (hT : T ≠ Cls.any) :
    w.commandGuards T = guardList J T := by
  rw [World.commandGuards, HandlerManager.commandGuards, h.globals, h.guards, guardList]
  by_cases hobj : T = Cls.object
  · -- a guard for `object` cannot be registered
    subst hobj
    simp [HandlerManager.isGlobal, guardsFor_object]
  · simp [HandlerManager.isGlobal, hT, hobj]

/-- The meta of a type was made for this type. -/
theorem Journaled.messageType (h : Journaled bases w J) (T : Cls) (m : FuncMeta)
    (hm : w.managers.handlerManager.handlerMetas.get? T = some m) : m.messageType = T :=
  messageType_of_resolved ((h.handlers T).symm.trans hm)

theorem Journaled.run (h : Journaled bases w J) (acts : List WorldAct) :
    Journaled bases (w.run acts) (J ++ w.journal acts) := by
  induction acts generalizing w J with
  | nil =>
    rw [World.journal, List.append_nil]
    exact h
  | cons a acts ih =>
    rw [World.journal, ← List.append_assoc]
    exact ih (h.step a)

/-- After a run the maps are what the journal says. -/
theorem journaled_run (bases : Nat → Option Cls × Option Cls) (acts : List WorldAct) :
    Journaled bases ((World.new bases).run acts) ((World.new bases).journal acts) :=
  (journaled_new bases).run acts

end

end Anywise
