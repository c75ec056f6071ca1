import Anywise.Journal

/-!
# Registrations that are ignored

`_register` catches the failure of the command phase whenever it fails, and the failure of the event phase always,
although a phase may be the only one that does anything.  With one base only, a handler that this base rejects is
therefore dropped without an exception, and a function or a guard without an annotation disappears with any bases.
`Dropped` and `Untargeted` say when, and `registration_ignored_iff` that these are all the cases.
-/

namespace Anywise

/-! ### What is rejected, what is dropped -/

/-- `gather_types` meets a generic such as `list[str]`. -/
def MeetsGeneric (g : ClassGraph) (a : Annotation) : Prop :=
  ∃ origin, gatherTypes g a = .error (.invalidMessageType origin)

/-- All classes of the annotation derive from `base`. -/
def Within (g : ClassGraph) (base : Cls) (a : Annotation) : Prop := ∀ c ∈ a.leaves, g.Sub c base

/-- A member `get_methodmetas` passes without an exception. -/
def Passes (g : ClassGraph) (m : String × Func) : Prop :=
  isPrivate m.1 = true ∨ (∃ self, m.2.params = [self]) ∨
    ∃ self msg rest types, m.2.params = self :: msg :: rest ∧ gatherTypes g msg.annotation = .ok types

/-- A public method for messages below `base`. -/
def Offers (g : ClassGraph) (base : Cls) (m : String × Func) : Prop :=
  isPrivate m.1 = false ∧ ∃ self msg rest types, m.2.params = self :: msg :: rest ∧
    gatherTypes g msg.annotation = .ok types ∧ types ≠ [] ∧ Within g base msg.annotation

/-- A public method whose message is annotated with a generic. -/
def Stops (g : ClassGraph) (m : String × Func) : Prop :=
  isPrivate m.1 = false ∧ ∃ self msg rest, m.2.params = self :: msg :: rest ∧ MeetsGeneric g msg.annotation

/-- The handlers a phase with the base `base` fails on, so that the failure is caught. -/
def Rejects (g : ClassGraph) (base : Cls) : Target → Prop
  | .func f => f.params = [] ∨ ∃ msg rest, f.params = msg :: rest ∧
      (MeetsGeneric g msg.annotation ∨
        (∃ types, gatherTypes g msg.annotation = .ok types) ∧ ¬ Within g base msg.annotation)
  | .cls c => (∀ m ∈ c.getmembers, Passes g m ∧ ¬ Offers g base m) ∨
      ∃ pre m post, c.getmembers = pre ++ m :: post ∧ (∀ n ∈ pre, Passes g n) ∧ Stops g m
  | .other _ => False

/-- The handler is a function whose message is not annotated. -/
def Unannotated : Target → Prop
  | .func f => ∃ msg rest, f.params = msg :: rest ∧ msg.annotation.isBare = true
  | _ => False

/-- The handlers a registry drops without an exception. -/
def Dropped (g : ClassGraph) (r : MessageRegistry) (h : Target) : Prop :=
  Unannotated h ∨
    (∃ base, r.commandBase = some base ∧ r.eventBase = none ∧ Rejects g base h) ∨
    (∃ base, r.commandBase = none ∧ r.eventBase = some base ∧ Rejects g base h)

/-- The handler is mapped to a message type. -/
def MessageRegistry.Maps (r : MessageRegistry) (h : Target) : Prop :=
  (∃ T m, r.commandMapping.get? T = some m ∧ m.IsFrom h) ∨
    ∃ T, ∃ m ∈ r.eventMapping.getD T, m.IsFrom h

/-! ### When a phase fails -/

section Phases

variable {g : ClassGraph} {ord : SetOrder} {base : Cls}

mutual

theorem gatherTypes_error {a : Annotation} {e : PyErr} (h : gatherTypes g a = .error e) :
    e = .typeError ∨ e = .attributeError ∨ ∃ origin, e = .invalidMessageType origin := by
  match a with
  | .empty => cases h
  | .cls c =>
    unfold gatherTypes at h
    split at h
    · rename_i e' he
      cases h
      exact Or.inl (allSubclasses_error he)
    · cases h
  | .other _ =>
    cases h
    exact Or.inr (Or.inl rfl)
  | .annotated a => exact gatherTypes_error (a := a) h
  | .union args => exact gatherArgs_error h
  | .generic origin _ =>
    cases h
    exact Or.inr (Or.inr ⟨origin, rfl⟩)

theorem gatherArgs_error {args : List Annotation} {e : PyErr} (h : gatherArgs g args = .error e) :
    e = .typeError ∨ e = .attributeError ∨ ∃ origin, e = .invalidMessageType origin := by
  match args with
  | [] => cases h
  | a :: args =>
    unfold gatherArgs at h
    split at h
    · rename_i e' he
      cases h
      exact gatherTypes_error he
    · split at h
      · rename_i e' he
        cases h
        exact gatherArgs_error he
      · cases h

end

/-- Of the errors of `gather_types` only the one about generics is a failure to register. -/
theorem meetsGeneric_of_error {a : Annotation} {e : PyErr} (h : gatherTypes g a = .error e)
    (he : e.isHandlerRegisterFail = true) : MeetsGeneric g a := by
  rcases gatherTypes_error h with rfl | rfl | ⟨origin, rfl⟩
  · cases he
  · cases he
  · exact ⟨origin, h⟩

theorem getFuncmetas_fails_iff {f : Func} :
    (∃ e, getFuncmetas g ord base f = .error e ∧ e.isHandlerRegisterFail = true) ↔ Rejects g base (.func f) := by
  constructor
  · rintro ⟨e, h, he⟩
    unfold getFuncmetas at h
    split at h
    · rename_i hp
      exact Or.inl hp
    · rename_i msg rest hp
      refine Or.inr ⟨msg, rest, hp, ?_⟩
      split at h
      · rename_i e' he'
        cases h
        exact Or.inl (meetsGeneric_of_error he' he)
      · rename_i types htypes
        split at h
        · rename_i t ht
          refine Or.inr ⟨⟨types, htypes⟩, fun hw => ?_⟩
          have hmem := ord.mem_iter.1 (List.mem_of_find?_eq_some ht)
          have hsub := (forall_gathered_iff htypes).2 hw t hmem
          have hfail := List.find?_some ht
          simp [hsub] at hfail
        · cases h
  · rintro (hp | ⟨msg, rest, hp, ⟨origin, ho⟩ | ⟨⟨types, htypes⟩, hw⟩⟩)
    · exact ⟨.messageHandlerNotFound (some base) f.id, by simp [getFuncmetas, hp], rfl⟩
    · exact ⟨.invalidMessageType origin, by simp [getFuncmetas, hp, ho], rfl⟩
    · cases hfind : (ord.iter types).find? fun t => !g.issubclass t base with
      | some t => exact ⟨.invalidHandler base t f.id, by simp [getFuncmetas, hp, htypes, hfind], rfl⟩
      | none =>
        refine absurd ((forall_gathered_iff htypes).1 fun t ht => ?_) hw
        simpa using List.find?_eq_none.1 hfind t (ord.mem_iter.2 ht)

/-! ### One member -/

variable {owner : Cls} {m : String × Func}

theorem methodMetas_passes (ord : SetOrder) (base owner : Cls) :
    (∃ l, methodMetas g ord base owner m = .ok l) ↔ Passes g m := by
  unfold methodMetas Passes
  cases hpriv : isPrivate m.1 with
  | true => simp
  | false =>
    simp only [Bool.false_eq_true, ↓reduceIte, false_or]
    rcases hp : m.2.params with _ | ⟨self, _ | ⟨msg, rest⟩⟩
    · simp
    · simp
    · cases ht : gatherTypes g msg.annotation with
      | error e => simp [ht]
      | ok types => by_cases hall : (ord.iter types).all fun t => g.issubclass t base <;> simp [ht, hall]

theorem methodMetas_offers (ord : SetOrder) (owner : Cls) :
    (∃ l, methodMetas g ord base owner m = .ok l ∧ l ≠ []) ↔ Offers g base m := by
  constructor
  · rintro ⟨l, hl, hne⟩
    rcases methodMetas_ok hl with rfl | ⟨self, msg, rest, types, hpriv, hp, htypes, hall, rfl⟩
    · exact absurd rfl hne
    · refine ⟨hpriv, self, msg, rest, types, hp, htypes, ?_, (forall_gathered_iff htypes).1 hall⟩
      rintro rfl
      simp [metasOf] at hne
  · rintro ⟨hpriv, self, msg, rest, types, hp, htypes, hne, hw⟩
    have hall : ((ord.iter types).all fun t => g.issubclass t base) = true :=
      List.all_eq_true.2 fun t ht => (forall_gathered_iff htypes).2 hw t (ord.mem_iter.1 ht)
    refine ⟨metasOf (ord.iter types) m.2 rest (some owner), ?_, ?_⟩
    · simp [methodMetas, hpriv, hp, htypes, hall]
    · simpa [metasOf] using hne

theorem methodMetas_stops (ord : SetOrder) (base owner : Cls) :
    (∃ e, methodMetas g ord base owner m = .error e ∧ e.isHandlerRegisterFail = true) ↔ Stops g m := by
  constructor
  · rintro ⟨e, h, he⟩
    unfold methodMetas at h
    split at h
    · cases h
    · rename_i hpriv
      split at h
      · cases h
      · cases h
        cases he
      · rename_i self msg rest hp
        split at h
        · rename_i e' he'
          cases h
          exact ⟨by simpa using hpriv, self, msg, rest, hp, meetsGeneric_of_error he' he⟩
        · split at h <;> cases h
  · rintro ⟨hpriv, self, msg, rest, hp, origin, ho⟩
    exact ⟨.invalidMessageType origin, by simp [methodMetas, hpriv, hp, ho], rfl⟩

/-! ### All members -/

/-- The loop fails where the first member fails. -/
theorem methodMetasLoop_error {ms : List (String × Func)} {e : PyErr} :
    methodMetasLoop g ord base owner ms = .error e ↔ ∃ pre n post, ms = pre ++ n :: post ∧
      (∀ k ∈ pre, Passes g k) ∧ methodMetas g ord base owner n = .error e := by
  induction ms with
  | nil => simp [methodMetasLoop]
  | cons n ms ih =>
    cases hn : methodMetas g ord base owner n with
    | error e' =>
      -- the loop ends here, and `n` is the only member that can be meant
      have hno : ¬ Passes g n := by
        rw [← methodMetas_passes ord base owner, hn]
        simp
      simp only [methodMetasLoop, hn, Except.error.injEq]
      constructor
      · rintro rfl
        exact ⟨[], n, ms, rfl, by simp, hn⟩
      · rintro ⟨_ | ⟨k, pre⟩, n', post, h, hpre, hn'⟩
        · cases h
          rw [hn] at hn'
          exact Except.error.inj hn'
        · rw [List.cons_append, List.cons.injEq] at h
          exact absurd (h.1 ▸ hpre k List.mem_cons_self) hno
    | ok l =>
      have hpass : Passes g n := (methodMetas_passes ord base owner).1 ⟨l, hn⟩
      have hrest : methodMetasLoop g ord base owner (n :: ms) = .error e ↔
          methodMetasLoop g ord base owner ms = .error e := by
        simp only [methodMetasLoop, hn]
        cases methodMetasLoop g ord base owner ms <;> simp
      rw [hrest, ih]
      constructor
      · rintro ⟨pre, n', post, rfl, hpre, hn'⟩
        exact ⟨n :: pre, n', post, rfl, by simpa [hpass] using hpre, hn'⟩
      · rintro ⟨_ | ⟨k, pre⟩, n', post, h, hpre, hn'⟩
        · cases h
          rw [hn] at hn'
          cases hn'
        · rw [List.cons_append, List.cons.injEq] at h
          exact ⟨pre, n', post, h.2, fun x hx => hpre x (List.mem_cons_of_mem _ hx), hn'⟩

/-- It returns no meta where it passes every member and none offers anything. -/
theorem methodMetasLoop_nil (ord : SetOrder) (owner : Cls) {ms : List (String × Func)} :
    methodMetasLoop g ord base owner ms = .ok [] ↔ ∀ n ∈ ms, Passes g n ∧ ¬ Offers g base n := by
  induction ms with
  | nil => simp [methodMetasLoop]
  | cons n ms ih =>
    have hn : (Passes g n ∧ ¬ Offers g base n) ↔ methodMetas g ord base owner n = .ok [] := by
      rw [← methodMetas_passes ord base owner,
        ← methodMetas_offers ord owner]
      cases methodMetas g ord base owner n with
      | error e => simp
      | ok l => simp
    rw [List.forall_mem_cons, hn, ← ih, methodMetasLoop.eq_2]
    cases methodMetas g ord base owner n with
    | error e => simp
    | ok l => cases methodMetasLoop g ord base owner ms <;> simp

theorem getMethodmetas_fails_iff {c : ClassObj} :
    (∃ e, getMethodmetas g ord base c = .error e ∧ e.isHandlerRegisterFail = true) ↔ Rejects g base (.cls c) := by
  have hstop : (∃ e, methodMetasLoop g ord base c.cls c.getmembers = .error e ∧ e.isHandlerRegisterFail = true) ↔
      ∃ pre m post, c.getmembers = pre ++ m :: post ∧ (∀ n ∈ pre, Passes g n) ∧ Stops g m := by
    constructor
    · rintro ⟨e, h, he⟩
      obtain ⟨pre, m, post, hm, hpre, h⟩ := methodMetasLoop_error.1 h
      exact ⟨pre, m, post, hm, hpre, (methodMetas_stops ord base c.cls).1 ⟨e, h, he⟩⟩
    · rintro ⟨pre, m, post, hm, hpre, h⟩
      obtain ⟨e, h, he⟩ := (methodMetas_stops ord base c.cls).2 h
      exact ⟨e, methodMetasLoop_error.2 ⟨pre, m, post, hm, hpre, h⟩, he⟩
  rw [Rejects, ← methodMetasLoop_nil ord c.cls, ← hstop]
  unfold getMethodmetas
  rcases methodMetasLoop g ord base c.cls c.getmembers with e | _ | ⟨m, l⟩
  · simp
  · simp [PyErr.isHandlerRegisterFail]
  · simp

/-- The phase with the base `base` fails on a handler exactly when it rejects it. -/
theorem extractMetas_fails_iff (ord : SetOrder) {h : Target} :
    (∃ e, extractMetas g ord base h = .error e ∧ e.isHandlerRegisterFail = true) ↔ Rejects g base h := by
  cases h with
  | func f => exact getFuncmetas_fails_iff
  | cls c => exact getMethodmetas_fails_iff
  | other i => simp [extractMetas, Rejects, PyErr.isHandlerRegisterFail]

/-! ### What a phase maps -/

/-- A phase that succeeds without metas has met a function whose message is not annotated. -/
theorem extractMetas_nil_iff {h : Target} {metas : List FuncMeta} (hok : extractMetas g ord base h = .ok metas) :
    metas = [] ↔ Unannotated h := by
  cases h with
  | func f =>
    obtain ⟨msg, rest, types, hp, htypes, -, rfl⟩ := getFuncmetas_ok hok
    have hnil : metasOf (ord.iter types) f rest none = [] ↔ types = [] := by simp [metasOf]
    rw [hnil]
    constructor
    · rintro rfl
      exact ⟨msg, rest, hp, gatherTypes_eq_nil.1 htypes⟩
    · rintro ⟨msg', rest', hp', hbare⟩
      rw [hp] at hp'
      cases hp'
      rw [← gatherTypes_eq_nil (g := g), htypes] at hbare
      exact Except.ok.inj hbare
  | cls c => exact ⟨fun h => absurd h (getMethodmetas_ok hok).2, fun h => h.elim⟩
  | other i => cases hok

/-- A function whose message is not annotated is accepted by every phase. -/
theorem extractMetas_unannotated {h : Target} (hu : Unannotated h) : extractMetas g ord base h = .ok [] := by
  cases h with
  | func f =>
    obtain ⟨msg, rest, hp, hbare⟩ := hu
    have hiter : ord.iter [] = [] := ord.iter_eq_nil.2 rfl
    have htypes : gatherTypes g msg.annotation = .ok [] := gatherTypes_eq_nil.2 hbare
    simp [extractMetas, getFuncmetas, hp, htypes, hiter, metasOf]
  | cls c => exact hu.elim
  | other i => exact hu.elim

end Phases

/-! ### Handlers -/

namespace MessageRegistry

section

variable {g : ClassGraph} {ord : SetOrder} {r r' : MessageRegistry} {base : Cls} {h : Target} {metas : List FuncMeta}

/-- A phase that fails has a base, which rejects the handler if the failure is caught. -/
private theorem phase_rejects {b : Option Cls} {e : PyErr} (hp : phase g ord b h = .error e) :
    ∃ base, b = some base ∧ (e.isHandlerRegisterFail = true → Rejects g base h) := by
  cases b with
  | none => cases hp
  | some base => exact ⟨base, rfl, fun hf => (extractMetas_fails_iff ord).1 ⟨e, hp, hf⟩⟩

/-- A phase without metas: the message is not annotated. -/
private theorem phase_unannotated (g : ClassGraph) (ord : SetOrder) (b : Option Cls) (hu : Unannotated h) :
    phase g ord b h = .ok [] := by
  cases b with
  | none => rfl
  | some base => exact extractMetas_unannotated hu

/-- A phase that has a base and succeeds has made metas from the handler, if it is annotated. -/
private theorem phase_kept {b : Option Cls} (hb : b = some base) (hu : ¬ Unannotated h)
    (hp : phase g ord b h = .ok metas) : extractMetas g ord base h = .ok metas ∧ metas ≠ [] := by
  subst hb
  have hx : extractMetas g ord base h = .ok metas := hp
  exact ⟨hx, fun hnil => hu ((extractMetas_nil_iff hx).1 hnil)⟩

/-- A dropped handler leaves the maps as they were, and nothing is raised. -/
theorem _register_dropped (ord : SetOrder) (hd : Dropped g r h) :
    ∃ r', r._register g ord h = (r', .ok ()) ∧ (∀ T, r'.commandMapping.get? T = r.commandMapping.get? T) ∧
      r'.eventMapping = r.eventMapping := by
  rcases hd with hu | ⟨base, hc, he, hrej⟩ | ⟨base, hc, he, hrej⟩
  · have hcommands : r.registerCommandhanlders g ord h = .ok r :=
      registerCommandhanlders_of_phase (phase_unannotated g ord r.commandBase hu)
    have hevents : r.registerEventlisteners g ord h = .ok r :=
      registerEventlisteners_of_phase (phase_unannotated g ord r.eventBase hu)
    exact ⟨r, by simp [_register, hcommands, hevents], fun _ => rfl, rfl⟩
  · obtain ⟨e, hx, hf⟩ := (extractMetas_fails_iff ord).2 hrej
    have hcommands : r.registerCommandhanlders g ord h = .error e := by
      rw [registerCommandhanlders_error_iff, hc]
      exact hx
    have hevents : r.registerEventlisteners g ord h = .ok r := by
      have hp : phase g ord r.eventBase h = .ok [] := by
        rw [he]
        rfl
      exact registerEventlisteners_of_phase hp
    exact ⟨r, by simp [_register, hcommands, hf, hevents], fun _ => rfl, rfl⟩
  · obtain ⟨e, hx, hf⟩ := (extractMetas_fails_iff ord).2 hrej
    have hcommands : r.registerCommandhanlders g ord h = .ok r := by
      have hp : phase g ord r.commandBase h = .ok [] := by
        rw [hc]
        rfl
      exact registerCommandhanlders_of_phase hp
    have hevents : r.registerEventlisteners g ord h = .error e := by
      rw [registerEventlisteners_error_iff, he]
      exact hx
    exact ⟨r, by simp [_register, hcommands, hevents, hf], fun _ => rfl, rfl⟩

/-- A command phase that has a base and succeeds maps the handler, if it is annotated. -/
private theorem commands_kept (hb : r.commandBase = some base) (hu : ¬ Unannotated h)
    (hr : r.registerCommandhanlders g ord h = .ok r') :
    ∃ T m, r'.commandMapping.get? T = some m ∧ m.IsFrom h := by
  obtain ⟨metas, hp⟩ := registerCommandhanlders_eq_ok hr
  obtain ⟨hx, hne⟩ := phase_kept hb hu hp
  obtain ⟨x, hxm⟩ := List.exists_mem_of_ne_nil metas hne
  obtain ⟨m, hm⟩ := Option.isSome_iff_exists.1
    (Dict.lastOf_isSome.2 ⟨x, List.mem_map.2 ⟨x, hxm, rfl⟩⟩ :
      (Dict.lastOf x.messageType (metas.map fun m => (m.messageType, m))).isSome)
  refine ⟨x.messageType, m, ?_, ?_⟩
  · rw [(registerCommandhanlders_ok hr).2.2, metaFor_of_phase hp, hm]
    rfl
  · obtain ⟨y, hy, heq⟩ := List.mem_map.1 (Dict.mem_of_lastOf hm)
    obtain rfl : y = m := (Prod.mk.inj heq).2
    exact isFrom_of_mem hx hy

private theorem events_kept (hb : r.eventBase = some base) (hu : ¬ Unannotated h)
    (hr : r.registerEventlisteners g ord h = .ok r') : ∃ T, ∃ m ∈ r'.eventMapping.getD T, m.IsFrom h := by
  obtain ⟨metas, hp⟩ := registerEventlisteners_eq_ok hr
  obtain ⟨hx, hne⟩ := phase_kept hb hu hp
  obtain ⟨x, hxm⟩ := List.exists_mem_of_ne_nil metas hne
  rw [registerEventlisteners_of_phase hp] at hr
  cases hr
  refine ⟨x.messageType, x, ?_, isFrom_of_mem hx hxm⟩
  show x ∈ (appendMetas r.eventMapping metas).getD x.messageType
  rw [getD_appendMetas]
  simp [hxm]

/-- Outside these cases the handler is mapped or an exception is raised. -/
theorem _register_kept (hb : r.commandBase.isSome ∨ r.eventBase.isSome) (hd : ¬ Dropped g r h) :
    (∃ e, (r._register g ord h).2 = .error e) ∨ (r._register g ord h).1.Maps h := by
  have hu : ¬ Unannotated h := fun hu => hd (Or.inl hu)
  cases hc : r.registerCommandhanlders g ord h with
  | error e =>
    obtain ⟨base, hcb, hrej⟩ := phase_rejects (registerCommandhanlders_error_iff.1 hc)
    by_cases hf : e.isHandlerRegisterFail = true
    · -- the failure is caught, and the event phase runs
      cases hev : r.registerEventlisteners g ord h with
      | error e' => exact Or.inl ⟨e', by simp [_register, hc, hf, hev]⟩
      | ok r' =>
        cases heb : r.eventBase with
        | none => exact absurd (Or.inr (Or.inl ⟨base, hcb, heb, hrej hf⟩)) hd
        | some base' =>
          have hmap := events_kept heb hu hev
          exact Or.inr (Or.inr (by simpa [_register, hc, hf, hev] using hmap))
    · exact Or.inl ⟨e, by simp [_register, hc, hf]⟩
  | ok r₁ =>
    obtain ⟨hs, -, -⟩ := registerCommandhanlders_ok hc
    cases hev : r₁.registerEventlisteners g ord h with
    | error e =>
      obtain ⟨base, heb, hrej⟩ := phase_rejects (registerEventlisteners_error_iff.1 hev)
      by_cases hf : e.isHandlerRegisterFail = true
      · -- the failure is caught after the command phase
        cases hcb : r.commandBase with
        | none => exact absurd (Or.inr (Or.inr ⟨base, hcb, hs.eventBase ▸ heb, hrej hf⟩)) hd
        | some base' =>
          have hmap := commands_kept hcb hu hc
          exact Or.inr (Or.inl (by simpa [_register, hc, hev, hf] using hmap))
      · exact Or.inl ⟨e, by simp [_register, hc, hev, hf]⟩
    | ok r₂ =>
      have hres : (r._register g ord h).1 = r₂ := by simp [_register, hc, hev]
      rw [hres]
      cases hcb : r.commandBase with
      | some base =>
        have hmap := commands_kept hcb hu hc
        rw [← (registerEventlisteners_ok hev).2] at hmap
        exact Or.inr (Or.inl hmap)
      | none =>
        obtain ⟨base, heb⟩ := Option.isSome_iff_exists.1 (hb.resolve_left (by simp [hcb]))
        rw [← hs.eventBase] at heb
        exact Or.inr (Or.inr (events_kept heb hu hev))

/-- A registration raises or maps the handler, unless it drops a handler not mapped before. -/
theorem _register_dropped_iff (hb : r.commandBase.isSome ∨ r.eventBase.isSome) :
    ((∃ e, (r._register g ord h).2 = .error e) ∨ (r._register g ord h).1.Maps h) ↔
      ¬ Dropped g r h ∨ r.Maps h := by
  by_cases hd : Dropped g r h
  · obtain ⟨r', hr', hcm, hev⟩ := _register_dropped ord hd
    simp [hr', hd, Maps, hcm, hev]
  · simp [hd, _register_kept hb hd]

/-! ### Guards -/

/-- `res`, the outcome of a guard registration in `r`, has appended a meta with the guard `ref T` for some `T`. -/
def Adds (r : MessageRegistry) (res : Except PyErr MessageRegistry) (ref : Cls → GuardRef) : Prop :=
  ∃ r' T, res = .ok r' ∧ r'.guardMapping.getD T = r.guardMapping.getD T ++ [⟨T, ref T⟩]

/-- The command of the guard is not annotated. -/
def Untargeted (func : Target) : Prop := ∃ a, guardAnnotation func = some a ∧ a.isBare = true

theorem guardResult_untargeted_iff (ord : SetOrder) (r : MessageRegistry) (func : Target) (ref : Cls → GuardRef)
    (made : Nat) :
    ((∃ e, guardResult g ord r func ref made = .error e) ∨ r.Adds (guardResult g ord r func ref made) ref) ↔
      ¬ Untargeted func := by
  unfold guardResult
  cases ht : r.getGuardtarget g func with
  | error e =>
    have : ¬ Untargeted func := by
      rintro ⟨a, ha, hbare⟩
      rw [getGuardtarget_eq, ha] at ht
      simp [gatherTypes_eq_nil.2 hbare] at ht
    simp [this]
  | ok targets =>
    obtain ⟨a, ha, hg⟩ := getGuardtarget_ok ht
    have hunt : Untargeted func ↔ targets = [] := by
      constructor
      · rintro ⟨a', ha', hbare⟩
        rw [ha] at ha'
        cases ha'
        rw [← gatherTypes_eq_nil (g := g), hg] at hbare
        exact Except.ok.inj hbare
      · rintro rfl
        exact ⟨a, ha, gatherTypes_eq_nil.1 hg⟩
    rw [hunt]
    constructor
    · rintro (⟨e, he⟩ | ⟨r', T, hr', hT⟩) rfl
      · cases he
      · cases hr'
        simp only at hT
        rw [getD_appendGuards List.nodup_nil] at hT
        simp at hT
    · intro hne
      obtain ⟨T, hT⟩ := List.exists_mem_of_ne_nil targets hne
      refine Or.inr ⟨_, T, rfl, ?_⟩
      simp only
      rw [getD_appendGuards (gatherTypes_nodup hg), if_pos hT]

end

/-- A handler is mapped or an exception raised exactly when it is not one that is dropped (or was mapped before);
a guard is added or an exception raised exactly when its command is annotated. -/
theorem registration_ignored_iff (g : ClassGraph) (ord : SetOrder) (r : MessageRegistry)
    (hb : r.commandBase.isSome ∨ r.eventBase.isSome) :
    (∀ h, ((∃ e, (r._register g ord h).2 = .error e) ∨ (r._register g ord h).1.Maps h) ↔
      ¬ Dropped g r h ∨ r.Maps h) ∧
    (∀ func, ((∃ e, r.preHandle g ord func = .error e) ∨
        r.Adds (r.preHandle g ord func) fun t => .obj (.guard r.id r.guardsMade t (some func.id) none)) ↔
      ¬ Untargeted func) ∧
    (∀ func, ((∃ e, r.postHandle g ord func = .error e) ∨
        r.Adds (r.postHandle g ord func) fun t => .obj (.guard r.id r.guardsMade t none (some func.id))) ↔
      ¬ Untargeted func) ∧
    ∀ guard : GuardArg, ((∃ e, (r.addGuards g ord [guard]).2 = .error e) ∨
        r.Adds (.ok (r.addGuards g ord [guard]).1) fun _ => guard.ref) ↔
      ¬ Untargeted guard.target := by
  refine ⟨fun h => _register_dropped_iff hb, fun func => ?_, fun func => ?_, fun guard => ?_⟩
  · rw [preHandle_eq]
    exact guardResult_untargeted_iff ord r func _ _
  · rw [postHandle_eq]
    exact guardResult_untargeted_iff ord r func _ _
  · rw [← guardResult_untargeted_iff ord r guard.target (fun _ => guard.ref) r.guardsMade]
    unfold addGuards forEach
    rw [addGuard_eq]
    cases hres : guardResult g ord r guard.target (fun _ => guard.ref) r.guardsMade with
    | error e => simp [attempt]
    | ok r' => simp [attempt, forEach]

/-! ### A handler of a class outside the command base -/

/-- `UserCommand` and another class, numbers 4 and 5. -/
def userClasses : ClassGraph := (ClassGraph.builtin.define [Cls.object]).define [Cls.object]

/-- A function of the other class. -/
def randomFunc : Target := .func ⟨0, [⟨"a", .cls 5⟩], false⟩

/-- A registry with `command_base=UserCommand` neither raises nor maps the function. -/
theorem randomFunc_ignored :
    ((MessageRegistry.new 0 (some 4) none)._register userClasses .listed randomFunc).2 = .ok () ∧
      ¬ ((MessageRegistry.new 0 (some 4) none)._register userClasses .listed randomFunc).1.Maps randomFunc := by
  have hr : (MessageRegistry.new 0 (some 4) none)._register userClasses .listed randomFunc =
      (MessageRegistry.new 0 (some 4) none, .ok ()) := rfl
  rw [hr]
  refine ⟨rfl, ?_⟩
  rintro (⟨T, m, hm, -⟩ | ⟨T, m, hm, -⟩)
  · cases hm
  · cases hm

/-- With an event base as well, the same function is rejected with an exception. -/
theorem randomFunc_raises :
    (∃ e, ((MessageRegistry.new 0 (some 4) (some 4))._register userClasses .listed randomFunc).2 = .error e) ∨
      ((MessageRegistry.new 0 (some 4) (some 4))._register userClasses .listed randomFunc).1.Maps randomFunc := by
  refine ((registration_ignored_iff userClasses .listed (.new 0 (some 4) (some 4)) (Or.inl rfl)).1 _).2 (Or.inl ?_)
  rintro (⟨msg, rest, hp, hno⟩ | ⟨base, -, he, -⟩ | ⟨base, hc, -⟩)
  · cases hp
    cases hno
  · cases he
  · cases hc

end MessageRegistry

end Anywise
