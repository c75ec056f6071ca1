import Anywise.Registration

/-!
# Registering a handler is all or nothing

Each phase of `_register` extracts all metas before it writes any.  When an exception leaves `_register` nothing has
been written; otherwise both maps have got what was extracted for their base, which is nothing where the extraction
failed (`_register_inversion`).
-/

namespace Anywise

section Extracted

variable (g : ClassGraph) (ord : SetOrder)

/-- What a phase writes: nothing if the extraction fails. -/
def extracted (base : Option Cls) (h : Target) : List FuncMeta :=
  match phase g ord base h with
  | .error _ => []
  | .ok metas => metas

/-- The extraction raises a `HandlerRegisterFailError`. -/
def ExtractionFails (base : Option Cls) (h : Target) : Prop :=
  ∃ e, phase g ord base h = .error e ∧ e.isHandlerRegisterFail = true

end Extracted

variable {g : ClassGraph} {ord : SetOrder} {h : Target}

theorem extracted_of_ok {base : Option Cls} {metas : List FuncMeta} (hp : phase g ord base h = .ok metas) :
    extracted g ord base h = metas := by
  rw [extracted, hp]

theorem extracted_of_error {base : Option Cls} {e : PyErr} (hp : phase g ord base h = .error e) :
    extracted g ord base h = [] := by
  rw [extracted, hp]

theorem not_extractionFails_of_ok {base : Option Cls} {metas : List FuncMeta} (hp : phase g ord base h = .ok metas) :
    ¬ ExtractionFails g ord base h := by
  rintro ⟨e, he, -⟩
  rw [hp] at he
  cases he

theorem extractionFails_iff {base : Option Cls} {e : PyErr} (hp : phase g ord base h = .error e) :
    ExtractionFails g ord base h ↔ e.isHandlerRegisterFail = true := by
  constructor
  · rintro ⟨e', he', hf⟩
    rw [hp] at he'
    cases he'
    exact hf
  · exact fun hf => ⟨e, hp, hf⟩

/-- Where one base can be served, another one can only make the registration fail.  This takes `issubclass` not to
raise, as it does on a base that is a `Protocol`. -/
theorem isHandlerRegisterFail_of_other_base {b b' : Cls} {metas : List FuncMeta} {e : PyErr}
    (hok : extractMetas g ord b h = .ok metas) (he : extractMetas g ord b' h = .error e) :
    e.isHandlerRegisterFail = true := by
  cases h with
  | other i => cases hok
  | func f =>
    -- the annotation is gathered in the same way for both
    obtain ⟨msg, rest, types, hp, htypes, -, -⟩ := getFuncmetas_ok hok
    simp only [extractMetas, getFuncmetas, hp, htypes] at he
    split at he
    · cases he
      rfl
    · cases he
  | cls c =>
    have hloop := (getMethodmetas_ok hok).1
    have hpass : ∀ n ∈ c.getmembers, Passes g n := fun n hn =>
      (methodMetas_passes ord b c.cls).1 (methodMetasLoop_each hloop hn)
    have hloop' : ∀ e', methodMetasLoop g ord b' c.cls c.getmembers ≠ .error e' := by
      intro e' he'
      obtain ⟨pre, n, post, hmem, -, hn⟩ := methodMetasLoop_error.1 he'
      obtain ⟨l, hl⟩ := (methodMetas_passes ord b' c.cls).2 (hpass n (by simp [hmem]))
      rw [hl] at hn
      cases hn
    simp only [extractMetas, getMethodmetas] at he
    split at he
    · rename_i e' he'
      exact absurd he' (hloop' e')
    · cases he
      rfl
    · cases he

/-! ### The two phases -/

namespace MessageRegistry

variable {r : MessageRegistry}

/-- The registry with the metas of both phases. -/
def added (r : MessageRegistry) (commands events : List FuncMeta) : MessageRegistry :=
  { r with
    commandMapping := r.commandMapping.update
      (Dict.empty.update (commands.map fun m => (m.messageType, m)) : Dict Cls FuncMeta).items
    eventMapping := appendMetas r.eventMapping events }

/-- The command phase fails: only the event phase counts. -/
private theorem _register_of_failed {e : PyErr} (hc : phase g ord r.commandBase h = .error e)
    (hf : e.isHandlerRegisterFail = true) :
    (∃ e', phase g ord r.eventBase h = .error e' ∧ r._register g ord h = (r, .error e')) ∨
      ∃ metas, phase g ord r.eventBase h = .ok metas ∧ r._register g ord h = (r.added [] metas, .ok ()) := by
  have hcommands := registerCommandhanlders_error_iff.2 hc
  cases hev : phase g ord r.eventBase h with
  | error e' =>
    have hevents := registerEventlisteners_error_iff.2 hev
    exact Or.inl ⟨e', rfl, by simp [_register, hcommands, hf, hevents]⟩
  | ok metas =>
    have hevents := registerEventlisteners_of_phase hev
    exact Or.inr ⟨metas, rfl, by simp [_register, hcommands, hf, hevents, added, Dict.update, Dict.empty]⟩

/-- The command phase succeeds: a failure of the event phase is caught. -/
private theorem _register_of_ok {commands : List FuncMeta} (hc : phase g ord r.commandBase h = .ok commands) :
    (∃ e, phase g ord r.eventBase h = .error e ∧ e.isHandlerRegisterFail = true ∧
        r._register g ord h = (r.added commands [], .ok ())) ∨
      (∃ e, phase g ord r.eventBase h = .error e ∧ e.isHandlerRegisterFail = false ∧
        r._register g ord h = (r.added commands [], .error e)) ∨
      ∃ events, phase g ord r.eventBase h = .ok events ∧
        r._register g ord h = (r.added commands events, .ok ()) := by
  have hcommands : r.registerCommandhanlders g ord h = .ok (r.added commands []) :=
    registerCommandhanlders_of_phase hc
  cases hev : phase g ord r.eventBase h with
  | error e =>
    have hevents : (r.added commands []).registerEventlisteners g ord h = .error e :=
      registerEventlisteners_error_iff.2 hev
    cases hf : e.isHandlerRegisterFail with
    | true => exact Or.inl ⟨e, rfl, hf, by simp [_register, hcommands, hevents, hf]⟩
    | false => exact Or.inr (Or.inl ⟨e, rfl, hf, by simp [_register, hcommands, hevents, hf]⟩)
  | ok events =>
    have hevents : (r.added commands []).registerEventlisteners g ord h = .ok (r.added commands events) :=
      registerEventlisteners_of_phase hev
    exact Or.inr (Or.inr ⟨events, rfl, by simp [_register, hcommands, hevents]⟩)

/-- Either an exception leaves the registry as it was, or both phases have written what they extracted. -/
theorem _register_inversion (g : ClassGraph) (ord : SetOrder) (r : MessageRegistry) (h : Target) :
    (∃ e, r._register g ord h = (r, .error e) ∧ (e.isHandlerRegisterFail = true ↔
      ExtractionFails g ord r.commandBase h ∧ ExtractionFails g ord r.eventBase h)) ∨
    r._register g ord h =
        (r.added (extracted g ord r.commandBase h) (extracted g ord r.eventBase h), .ok ()) ∧
      ¬ (ExtractionFails g ord r.commandBase h ∧ ExtractionFails g ord r.eventBase h) := by
  cases hc : phase g ord r.commandBase h with
  | error e =>
    rw [extractionFails_iff hc, extracted_of_error hc]
    cases hf : e.isHandlerRegisterFail with
    | false =>
      have hcommands := registerCommandhanlders_error_iff.2 hc
      exact Or.inl ⟨e, by simp [_register, hcommands, hf], by simp [hf]⟩
    | true =>
      rcases _register_of_failed hc hf with ⟨e', hev, hres⟩ | ⟨metas, hev, hres⟩
      · refine Or.inl ⟨e', hres, ?_⟩
        rw [extractionFails_iff hev]
        simp
      · rw [extracted_of_ok hev]
        exact Or.inr ⟨hres, fun hboth => not_extractionFails_of_ok hev hboth.2⟩
  | ok commands =>
    have hno : ¬ (ExtractionFails g ord r.commandBase h ∧ ExtractionFails g ord r.eventBase h) := fun hboth =>
      not_extractionFails_of_ok hc hboth.1
    rw [extracted_of_ok hc]
    rcases _register_of_ok hc with ⟨e, hev, hf, hres⟩ | ⟨e, hev, hf, hres⟩ | ⟨events, hev, hres⟩
    · rw [extracted_of_error hev]
      exact Or.inr ⟨hres, hno⟩
    · -- no other exception is left for the event phase when there is a command base
      cases hb : r.commandBase with
      | some b =>
        cases hb' : r.eventBase with
        | none =>
          rw [hb'] at hev
          cases hev
        | some b' =>
          rw [hb] at hc
          rw [hb'] at hev
          rw [isHandlerRegisterFail_of_other_base hc hev] at hf
          cases hf
      | none =>
        rw [hb] at hc
        cases hc
        refine Or.inl ⟨e, hres, ?_⟩
        rw [extractionFails_iff hev, hf]
        simp
    · rw [extracted_of_ok hev]
      exact Or.inr ⟨hres, hno⟩

/-! ### What the maps get -/

theorem get?_commandMapping_added (commands events : List FuncMeta) (T : Cls) :
    (r.added commands events).commandMapping.get? T =
      (Dict.lastOf T (commands.map fun m => (m.messageType, m))).or (r.commandMapping.get? T) := by
  show (r.commandMapping.update _).get? T = _
  rw [Dict.get?_update_items, Dict.get?_update]
  simp

theorem get?_eventMapping_added (commands events : List FuncMeta) (T : Cls) :
    (r.added commands events).eventMapping.get? T =
      if T ∈ events.map FuncMeta.messageType then
        some (r.eventMapping.getD T ++ events.filter fun m => decide (m.messageType = T))
      else r.eventMapping.get? T :=
  Dict.get?_foldl_extend_key FuncMeta.messageType events r.eventMapping T

/-- A type among the commands is mapped to one of its metas, another one as before. -/
theorem commandMapping_added_spec (commands events : List FuncMeta) (T : Cls) :
    (T ∈ commands.map FuncMeta.messageType → ∃ m ∈ commands, m.messageType = T ∧
        (r.added commands events).commandMapping.get? T = some m) ∧
      (T ∉ commands.map FuncMeta.messageType →
        (r.added commands events).commandMapping.get? T = r.commandMapping.get? T) := by
  have hkeys : T ∈ commands.map FuncMeta.messageType ↔
      (Dict.lastOf T (commands.map fun m => (m.messageType, m))).isSome := by
    rw [Dict.lastOf_isSome]
    simp [and_comm]
  rw [get?_commandMapping_added, hkeys]
  constructor
  · intro hsome
    obtain ⟨m, hm⟩ := Option.isSome_iff_exists.1 hsome
    obtain ⟨m', hm', heq⟩ := List.mem_map.1 (Dict.mem_of_lastOf hm)
    obtain ⟨hT, rfl⟩ := Prod.mk.inj heq
    exact ⟨m', hm', hT, by rw [hm, Option.some_or]⟩
  · intro hnone
    rw [Option.not_isSome_iff_eq_none.1 hnone, Option.none_or]

/-! ### All or nothing -/

/-- An exception leaves the registry as it was.  With both bases a `HandlerRegisterFailError` is raised exactly when
the extraction raises one for both.  Without an exception each map has changed at the types extracted for its base
only, the event lists by appending, and not at all where the extraction has failed.  The bases are such that
`issubclass` does not raise on them. -/
theorem _register_all_or_nothing (g : ClassGraph) (ord : SetOrder) (r : MessageRegistry) (h : Target) :
    (∀ e, (r._register g ord h).2 = .error e → (r._register g ord h).1 = r) ∧
    (∀ cb eb, r.commandBase = some cb → r.eventBase = some eb →
      ((∃ e, (r._register g ord h).2 = .error e ∧ e.isHandlerRegisterFail = true) ↔
        (∃ e, extractMetas g ord cb h = .error e ∧ e.isHandlerRegisterFail = true) ∧
          ∃ e, extractMetas g ord eb h = .error e ∧ e.isHandlerRegisterFail = true)) ∧
    ((r._register g ord h).2 = .ok () →
      (∀ T, (T ∈ (extracted g ord r.commandBase h).map FuncMeta.messageType →
          ∃ m ∈ extracted g ord r.commandBase h, m.messageType = T ∧
            (r._register g ord h).1.commandMapping.get? T = some m) ∧
        (T ∉ (extracted g ord r.commandBase h).map FuncMeta.messageType →
          (r._register g ord h).1.commandMapping.get? T = r.commandMapping.get? T)) ∧
      (∀ T, (r._register g ord h).1.eventMapping.get? T =
        if T ∈ (extracted g ord r.eventBase h).map FuncMeta.messageType then
          some (r.eventMapping.getD T ++ (extracted g ord r.eventBase h).filter fun m => decide (m.messageType = T))
        else r.eventMapping.get? T) ∧
      ((∃ e, phase g ord r.commandBase h = .error e) →
        (r._register g ord h).1.commandMapping = r.commandMapping) ∧
      ((∃ e, phase g ord r.eventBase h = .error e) →
        (r._register g ord h).1.eventMapping = r.eventMapping) ∧
      (r._register g ord h).1.guardMapping = r.guardMapping) := by
  rcases _register_inversion g ord r h with ⟨e, hres, hiff⟩ | ⟨hres, hno⟩
  · -- an exception is raised
    rw [hres]
    refine ⟨fun _ _ => rfl, ?_, fun hok => by cases hok⟩
    intro cb eb hcb heb
    have hboth : (∃ e', (r, (.error e : Except PyErr Unit)).2 = .error e' ∧ e'.isHandlerRegisterFail = true) ↔
        e.isHandlerRegisterFail = true := by
      simp
    rw [hboth, hiff, hcb, heb]
    rfl
  · -- both phases have written
    rw [hres]
    refine ⟨fun _ herr => (by cases herr), ?_, fun _ => ⟨fun T => commandMapping_added_spec _ _ T,
      fun T => get?_eventMapping_added _ _ T, ?_, ?_, rfl⟩⟩
    · intro cb eb hcb heb
      constructor
      · rintro ⟨e, herr, -⟩
        cases herr
      · intro hboth
        rw [hcb, heb] at hno
        exact absurd hboth hno
    · rintro ⟨e, he⟩
      rw [extracted_of_error he]
      rfl
    · rintro ⟨e, he⟩
      rw [extracted_of_error he]
      rfl

end MessageRegistry

end Anywise
