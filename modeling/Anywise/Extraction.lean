import Anywise.Manager

/-!
# What a registry extracts from a handler

`get_funcmetas` and `get_methodmetas`, when they return, return one meta for each class in the closure of the message
annotation: `Covers` says this without the loops, and `extractMetas_covers` that it is what the metas say.
-/

namespace Anywise

variable {g : ClassGraph} {ord : SetOrder}

/-- The parameters `params` begin with a message of type `T`, of a base of `T` or of a union with one of them in it,
and all classes named there derive from `base`. -/
def Accepts (g : ClassGraph) (base : Cls) (params : List Param) (T : Cls) : Prop :=
  ∃ msg rest, params = msg :: rest ∧ (∃ c ∈ msg.annotation.leaves, g.Sub T c) ∧
    ∀ c ∈ msg.annotation.leaves, g.Sub c base

/-- `fn` is the function of the handler, or the public method of the handler class, that takes messages of type
`T`. -/
def Covers (g : ClassGraph) (base : Cls) : Target → Cls → Func → Prop
  | .func f, T, fn => fn = f ∧ Accepts g base f.params T
  | .cls c, T, fn => ∃ name, (name, fn) ∈ c.body ∧ isPrivate name = false ∧
      ∃ self params, fn.params = self :: params ∧ Accepts g base params T
  | .other _, _, _ => False

/-- The meta was made from the handler. -/
def FuncMeta.IsFrom (m : FuncMeta) : Target → Prop
  | .func f => m.ownerType = none ∧ m.handler.id = f.id
  | .cls c => m.ownerType = some c.cls
  | .other _ => False

/-! ### One function -/

theorem mem_metasOf {derived : List Cls} {func : Func} {rest : List Param} {owner : Option Cls} {m : FuncMeta}
    (h : m ∈ metasOf derived func rest owner) :
    m.messageType ∈ derived ∧ m.handler = func ∧ m.ownerType = owner := by
  unfold metasOf at h
  obtain ⟨t, ht, rfl⟩ := List.mem_map.1 h
  exact ⟨ht, rfl, rfl⟩

theorem exists_mem_metasOf {derived : List Cls} {func : Func} {rest : List Param} {owner : Option Cls} {T : Cls} :
    (∃ m ∈ metasOf derived func rest owner, m.messageType = T) ↔ T ∈ derived := by
  constructor
  · rintro ⟨m, hm, rfl⟩
    exact (mem_metasOf hm).1
  · intro hT
    exact ⟨_, List.mem_map.2 ⟨T, hT, rfl⟩, rfl⟩

/-- All gathered classes derive from `base` exactly when the named ones do. -/
theorem forall_gathered_iff {a : Annotation} {l : List Cls} (h : gatherTypes g a = .ok l) {base : Cls} :
    (∀ t ∈ l, g.issubclass t base = true) ↔ ∀ c ∈ a.leaves, g.Sub c base := by
  constructor
  · exact fun hl c hc => g.issubclass_iff.1 (hl c ((mem_gatherTypes h).2 ⟨c, hc, .refl⟩))
  · intro hl t ht
    obtain ⟨c, hc, htc⟩ := (mem_gatherTypes h).1 ht
    exact g.issubclass_iff.2 (htc.trans (hl c hc))

theorem getFuncmetas_ok {base : Cls} {f : Func} {metas : List FuncMeta}
    (h : getFuncmetas g ord base f = .ok metas) :
    ∃ msg rest types, f.params = msg :: rest ∧ gatherTypes g msg.annotation = .ok types ∧
      (∀ t ∈ types, g.issubclass t base = true) ∧ metas = metasOf (ord.iter types) f rest none := by
  unfold getFuncmetas at h
  split at h
  · cases h
  · rename_i msg rest hp
    split at h
    · cases h
    · rename_i types htypes
      split at h
      · cases h
      · rename_i hall
        cases h
        refine ⟨msg, rest, types, hp, htypes, fun t ht => ?_, rfl⟩
        have := List.find?_eq_none.1 hall t (ord.mem_iter.2 ht)
        simpa using this

/-! ### One method -/

theorem methodMetas_ok {base owner : Cls} {m : String × Func} {metas : List FuncMeta}
    (h : methodMetas g ord base owner m = .ok metas) :
    metas = [] ∨ ∃ self msg rest types, isPrivate m.1 = false ∧ m.2.params = self :: msg :: rest ∧
      gatherTypes g msg.annotation = .ok types ∧ (∀ t ∈ types, g.issubclass t base = true) ∧
      metas = metasOf (ord.iter types) m.2 rest (some owner) := by
  unfold methodMetas at h
  split at h
  · cases h
    exact Or.inl rfl
  · rename_i hpriv
    split at h
    · cases h
      exact Or.inl rfl
    · cases h
    · rename_i self msg rest hp
      split at h
      · cases h
      · rename_i types htypes
        split at h
        · rename_i hall
          cases h
          refine Or.inr ⟨self, msg, rest, types, by simpa using hpriv, hp, htypes, fun t ht => ?_, rfl⟩
          exact List.all_eq_true.1 hall t (ord.mem_iter.2 ht)
        · cases h
          exact Or.inl rfl

/-- The metas of a member say what it accepts. -/
theorem methodMetas_accepts {base owner : Cls} {m : String × Func} {metas : List FuncMeta}
    (h : methodMetas g ord base owner m = .ok metas) {T : Cls} :
    (∃ x ∈ metas, x.messageType = T) ↔
      isPrivate m.1 = false ∧ ∃ self params, m.2.params = self :: params ∧ Accepts g base params T := by
  constructor
  · rintro ⟨x, hx, rfl⟩
    rcases methodMetas_ok h with rfl | ⟨self, msg, rest, types, hpriv, hp, htypes, hall, rfl⟩
    · cases hx
    · have hT := ord.mem_iter.1 (mem_metasOf hx).1
      exact ⟨hpriv, self, _, hp, msg, rest, rfl, (mem_gatherTypes htypes).1 hT, (forall_gathered_iff htypes).1 hall⟩
  · rintro ⟨hpriv, self, _, hp, msg, rest, rfl, hT, hbase⟩
    unfold methodMetas at h
    rw [hpriv, hp] at h
    simp only [Bool.false_eq_true, ↓reduceIte] at h
    split at h
    · cases h
    · rename_i types htypes
      have hall := (forall_gathered_iff htypes).2 hbase
      rw [if_pos (List.all_eq_true.2 fun t ht => hall t (ord.mem_iter.1 ht))] at h
      cases h
      exact exists_mem_metasOf.2 (ord.mem_iter.2 ((mem_gatherTypes htypes).2 hT))

/-! ### All members -/

/-- A loop that succeeds has made the metas of the first member and those of the others. -/
theorem methodMetasLoop_cons {base owner : Cls} {m : String × Func} {ms : List (String × Func)} {metas : List FuncMeta}
    (h : methodMetasLoop g ord base owner (m :: ms) = .ok metas) :
    ∃ l rest, methodMetas g ord base owner m = .ok l ∧ methodMetasLoop g ord base owner ms = .ok rest ∧
      metas = l ++ rest := by
  unfold methodMetasLoop at h
  cases hl : methodMetas g ord base owner m with
  | error e =>
    rw [hl] at h
    cases h
  | ok l =>
    cases hrest : methodMetasLoop g ord base owner ms with
    | error e =>
      rw [hl, hrest] at h
      cases h
    | ok rest =>
      rw [hl, hrest] at h
      cases h
      exact ⟨l, rest, rfl, rfl, rfl⟩

theorem methodMetasLoop_ok {base owner : Cls} {ms : List (String × Func)} {metas : List FuncMeta}
    (h : methodMetasLoop g ord base owner ms = .ok metas) {x : FuncMeta} :
    x ∈ metas ↔ ∃ m ∈ ms, ∃ l, methodMetas g ord base owner m = .ok l ∧ x ∈ l := by
  induction ms generalizing metas with
  | nil =>
    cases h
    simp
  | cons m ms ih =>
    obtain ⟨l, rest, hl, hrest, rfl⟩ := methodMetasLoop_cons h
    rw [List.mem_append, ih hrest]
    simp [hl]

theorem methodMetasLoop_each {base owner : Cls} {ms : List (String × Func)} {metas : List FuncMeta}
    (h : methodMetasLoop g ord base owner ms = .ok metas) {m : String × Func} (hm : m ∈ ms) :
    ∃ l, methodMetas g ord base owner m = .ok l := by
  induction ms generalizing metas with
  | nil => cases hm
  | cons n ms ih =>
    obtain ⟨l, rest, hl, hrest, -⟩ := methodMetasLoop_cons h
    rcases List.mem_cons.1 hm with rfl | hm
    · exact ⟨l, hl⟩
    · exact ih hrest hm

theorem getMethodmetas_ok {base : Cls} {c : ClassObj} {metas : List FuncMeta}
    (h : getMethodmetas g ord base c = .ok metas) :
    methodMetasLoop g ord base c.cls c.getmembers = .ok metas ∧ metas ≠ [] := by
  unfold getMethodmetas at h
  split at h
  · cases h
  · cases h
  · rename_i l hne hl
    cases h
    exact ⟨hl, hne⟩

theorem mem_getmembers {c : ClassObj} {m : String × Func} : m ∈ c.getmembers ↔ m ∈ c.body :=
  List.mem_insertionSort _

/-- A meta of a class comes from a member. -/
theorem mem_getMethodmetas {base : Cls} {c : ClassObj} {metas : List FuncMeta}
    (h : getMethodmetas g ord base c = .ok metas) {x : FuncMeta} :
    x ∈ metas ↔ ∃ m ∈ c.body, ∃ l, methodMetas g ord base c.cls m = .ok l ∧ x ∈ l := by
  rw [methodMetasLoop_ok (getMethodmetas_ok h).1]
  simp only [mem_getmembers]

/-! ### Any handler -/

/-- Successful extraction: there is a meta of `fn` for `T` exactly when `fn` covers `T`. -/
theorem extractMetas_covers {base : Cls} {h : Target} {metas : List FuncMeta}
    (hok : extractMetas g ord base h = .ok metas) {T : Cls} {fn : Func} :
    (∃ m ∈ metas, m.messageType = T ∧ m.handler = fn) ↔ Covers g base h T fn := by
  cases h with
  | other i => cases hok
  | func f =>
    obtain ⟨msg, rest, types, hp, htypes, hall, rfl⟩ := getFuncmetas_ok hok
    constructor
    · rintro ⟨m, hm, rfl, rfl⟩
      obtain ⟨hT, hf, -⟩ := mem_metasOf hm
      exact ⟨hf, msg, rest, hp, (mem_gatherTypes htypes).1 (ord.mem_iter.1 hT), (forall_gathered_iff htypes).1 hall⟩
    · rintro ⟨rfl, msg', rest', hp', hT, -⟩
      rw [hp] at hp'
      cases hp'
      obtain ⟨m, hm, hmT⟩ := exists_mem_metasOf.2 (ord.mem_iter.2 ((mem_gatherTypes htypes).2 hT))
      exact ⟨m, hm, hmT, (mem_metasOf hm).2.1⟩
  | cls c =>
    -- each meta names the method it was made from
    have hfn : ∀ m l, methodMetas g ord base c.cls m = .ok l → ∀ x ∈ l, x.handler = m.2 := by
      intro m l hl x hx
      rcases methodMetas_ok hl with rfl | ⟨self, msg, rest, types, -, -, -, -, rfl⟩
      · cases hx
      · exact (mem_metasOf hx).2.1
    constructor
    · rintro ⟨x, hx, rfl, rfl⟩
      obtain ⟨m, hm, l, hl, hxl⟩ := (mem_getMethodmetas hok).1 hx
      obtain ⟨hpriv, hacc⟩ := (methodMetas_accepts hl).1 ⟨x, hxl, rfl⟩
      rw [hfn m l hl x hxl]
      exact ⟨m.1, hm, hpriv, hacc⟩
    · rintro ⟨name, hm, hpriv, hacc⟩
      obtain ⟨l, hl⟩ := methodMetasLoop_each (getMethodmetas_ok hok).1 (mem_getmembers.2 hm)
      obtain ⟨x, hx, hxT⟩ := (methodMetas_accepts hl).2 ⟨hpriv, hacc⟩
      exact ⟨x, (mem_getMethodmetas hok).2 ⟨_, hm, l, hl, hx⟩, hxT, hfn _ l hl x hx⟩

/-- Each meta is made from the handler. -/
theorem isFrom_of_mem {base : Cls} {h : Target} {metas : List FuncMeta} (hok : extractMetas g ord base h = .ok metas)
    {x : FuncMeta} (hx : x ∈ metas) : x.IsFrom h := by
  cases h with
  | func f =>
    obtain ⟨msg, rest, types, -, -, -, rfl⟩ := getFuncmetas_ok hok
    obtain ⟨-, hf, ho⟩ := mem_metasOf hx
    exact ⟨ho, congrArg Func.id hf⟩
  | cls c =>
    obtain ⟨m, -, l, hl, hxl⟩ := (mem_getMethodmetas hok).1 hx
    rcases methodMetas_ok hl with rfl | ⟨self, msg, rest, types, -, -, -, -, rfl⟩
    · cases hxl
    · exact (mem_metasOf hxl).2.2
  | other i => cases hok

/-! ### The phases of a registration -/

/-- A phase of `_register`: what it extracts, nothing without a base. -/
def phase (g : ClassGraph) (ord : SetOrder) (base : Option Cls) (h : Target) : Except PyErr (List FuncMeta) :=
  match base with
  | none => .ok []
  | some b => extractMetas g ord b h

/-- Each meta at the end of the list of its type. -/
def appendMetas (d : Dict Cls (List FuncMeta)) (metas : List FuncMeta) : Dict Cls (List FuncMeta) :=
  metas.foldl (fun d m => d.extend m.messageType [m]) d

theorem getD_appendMetas (d : Dict Cls (List FuncMeta)) (metas : List FuncMeta) (T : Cls) :
    (appendMetas d metas).getD T = d.getD T ++ metas.filter fun m => decide (m.messageType = T) :=
  Dict.getD_foldl_extend_key FuncMeta.messageType metas d T

namespace MessageRegistry

variable {r : MessageRegistry} {h : Target} {metas : List FuncMeta} {e : PyErr}

private theorem registerCommandhanlders_eq (g : ClassGraph) (ord : SetOrder) (r : MessageRegistry) (h : Target) :
    r.registerCommandhanlders g ord h = (phase g ord r.commandBase h).map fun metas => { r with
      commandMapping := r.commandMapping.update
        (Dict.empty.update (metas.map fun m => (m.messageType, m)) : Dict Cls FuncMeta).items } := by
  unfold registerCommandhanlders
  split
  · rename_i hb
    have hp : phase g ord r.commandBase h = .ok [] := by
      rw [hb]
      rfl
    rw [hp]
    rfl
  · rename_i b hb
    have hp : phase g ord r.commandBase h = extractMetas g ord b h := by
      rw [hb]
      rfl
    rw [hp]
    cases extractMetas g ord b h <;> rfl

private theorem registerEventlisteners_eq (g : ClassGraph) (ord : SetOrder) (r : MessageRegistry) (h : Target) :
    r.registerEventlisteners g ord h = (phase g ord r.eventBase h).map fun metas => { r with
      eventMapping := appendMetas r.eventMapping metas } := by
  unfold registerEventlisteners
  split
  · rename_i hb
    have hp : phase g ord r.eventBase h = .ok [] := by
      rw [hb]
      rfl
    rw [hp]
    rfl
  · rename_i b hb
    have hp : phase g ord r.eventBase h = extractMetas g ord b h := by
      rw [hb]
      rfl
    rw [hp]
    cases extractMetas g ord b h <;> rfl

theorem registerCommandhanlders_of_phase (hp : phase g ord r.commandBase h = .ok metas) :
    r.registerCommandhanlders g ord h = .ok { r with
      commandMapping := r.commandMapping.update
        (Dict.empty.update (metas.map fun m => (m.messageType, m)) : Dict Cls FuncMeta).items } := by
  rw [registerCommandhanlders_eq, hp]
  rfl

theorem registerEventlisteners_of_phase (hp : phase g ord r.eventBase h = .ok metas) :
    r.registerEventlisteners g ord h = .ok { r with eventMapping := appendMetas r.eventMapping metas } := by
  rw [registerEventlisteners_eq, hp]
  rfl

/-- A phase of the registration fails as the extraction does. -/
theorem registerCommandhanlders_error_iff :
    r.registerCommandhanlders g ord h = .error e ↔ phase g ord r.commandBase h = .error e := by
  rw [registerCommandhanlders_eq]
  cases phase g ord r.commandBase h <;> simp [Except.map]

theorem registerEventlisteners_error_iff :
    r.registerEventlisteners g ord h = .error e ↔ phase g ord r.eventBase h = .error e := by
  rw [registerEventlisteners_eq]
  cases phase g ord r.eventBase h <;> simp [Except.map]

theorem registerCommandhanlders_eq_ok {r' : MessageRegistry} (hr : r.registerCommandhanlders g ord h = .ok r') :
    ∃ metas, phase g ord r.commandBase h = .ok metas := by
  cases hp : phase g ord r.commandBase h with
  | error e =>
    rw [registerCommandhanlders_error_iff.2 hp] at hr
    cases hr
  | ok metas => exact ⟨metas, rfl⟩

theorem registerEventlisteners_eq_ok {r' : MessageRegistry} (hr : r.registerEventlisteners g ord h = .ok r') :
    ∃ metas, phase g ord r.eventBase h = .ok metas := by
  cases hp : phase g ord r.eventBase h with
  | error e =>
    rw [registerEventlisteners_error_iff.2 hp] at hr
    cases hr
  | ok metas => exact ⟨metas, rfl⟩

end MessageRegistry

end Anywise
