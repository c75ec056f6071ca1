import Anywise.Registration

/-!
# The handler methods of a class

`get_methodmetas` goes through all function members of a class.  A member that is no handler method is passed by
only if it looks like one that is not: a member without parameters or with an annotation `gather_types` cannot walk
ends the loop with an exception, and a static method is taken for a method when its second parameter is annotated
with messages.  `registers_handlers_iff` says that these are all the cases.
-/

namespace Anywise

/-! ### Handler methods -/

/-- What the first parameter after `self` is annotated with. -/
def Func.messageHint (f : Func) : Option Annotation := f.params.tail.head?.map Param.annotation

section Methods

variable (g : ClassGraph) (base : Cls) (static : String → Bool)

/-- A public instance method whose message is annotated with classes derived from `base`; `static` says which members
are static methods. -/
def HandlerMethod (m : String × Func) : Prop :=
  isPrivate m.1 = false ∧ static m.1 = false ∧
    ∃ a ∈ m.2.messageHint, a.isPlain = true ∧ a.leaves ≠ [] ∧ Within g base a

/-- Exactly the handler methods among the members are registered: one meta for each class of the annotation and each
subclass of it, and nothing for the other members. -/
inductive Registers (owner : Cls) : List (String × Func) → List FuncMeta → Prop
  | nil : Registers owner [] []
  | handler {m : String × Func} {ms : List (String × Func)} {types : List Cls} {metas : List FuncMeta}
      (hm : HandlerMethod g base static m) (hnodup : types.Nodup)
      (hmem : ∀ T, T ∈ types ↔ ∃ a ∈ m.2.messageHint, ∃ c ∈ a.leaves, g.Sub T c)
      (h : Registers owner ms metas) :
      Registers owner (m :: ms) (metasOf types m.2 (m.2.params.drop 2) (some owner) ++ metas)
  | other {m : String × Func} {ms : List (String × Func)} {metas : List FuncMeta}
      (hm : ¬ HandlerMethod g base static m) (h : Registers owner ms metas) : Registers owner (m :: ms) metas

/-- A member that does no harm: it is private, has one parameter only, or has a second parameter annotated with
nothing or with classes that no metaclass derives from; and if it is static, this annotation does not look like that
of a message. -/
def Harmless (m : String × Func) : Prop :=
  isPrivate m.1 = true ∨ (∃ self, m.2.params = [self]) ∨
    ∃ a ∈ m.2.messageHint, a.isPlain = true ∧
      (∀ c ∈ a.leaves, ∀ d, g.Sub d c → ¬ g.Sub d Cls.type) ∧
      (static m.1 = true → a.leaves = [] ∨ ¬ Within g base a)

end Methods

section

variable {g : ClassGraph} {ord : SetOrder} {base owner : Cls} {static : String → Bool} {m : String × Func}

private theorem leaves_eq_nil {a : Annotation} {types : List Cls} (h : gatherTypes g a = .ok types) :
    a.leaves = [] ↔ types = [] := by
  constructor
  · intro ha
    refine List.eq_nil_iff_forall_not_mem.2 fun t ht => ?_
    obtain ⟨c, hc, -⟩ := (mem_gatherTypes h).1 ht
    rw [ha] at hc
    cases hc
  · rintro rfl
    refine List.eq_nil_iff_forall_not_mem.2 fun c hc => ?_
    cases (mem_gatherTypes h).2 ⟨c, hc, .refl⟩

private theorem messageHint_cons {f : Func} {self msg : Param} {rest : List Param}
    (h : f.params = self :: msg :: rest) : f.messageHint = some msg.annotation := by
  rw [Func.messageHint, h]
  rfl

private theorem exists_params {f : Func} {a : Annotation} (h : a ∈ f.messageHint) :
    ∃ self msg rest, f.params = self :: msg :: rest ∧ msg.annotation = a := by
  unfold Func.messageHint at h
  rcases hp : f.params with _ | ⟨self, _ | ⟨msg, rest⟩⟩
  · rw [hp] at h
    cases h
  · rw [hp] at h
    cases h
  · rw [hp] at h
    exact ⟨self, msg, rest, rfl, Option.some.inj h⟩

/-- The harmless members are those the loop passes, less the static methods it takes for handlers. -/
theorem harmless_iff :
    Harmless g base static m ↔ Passes g m ∧ (Offers g base m → HandlerMethod g base static m) := by
  constructor
  · rintro (hpriv | ⟨self, hp⟩ | ⟨a, ha, hplain, hmeta, hstatic⟩)
    · refine ⟨Or.inl hpriv, ?_⟩
      rintro ⟨hpub, -⟩
      rw [hpriv] at hpub
      cases hpub
    · refine ⟨Or.inr (Or.inl ⟨self, hp⟩), ?_⟩
      rintro ⟨-, self', msg, rest, types, hp', -⟩
      rw [hp] at hp'
      cases hp'
    · obtain ⟨self, msg, rest, hp, rfl⟩ := exists_params ha
      obtain ⟨types, htypes⟩ := gatherTypes_ok_iff.2 ⟨hplain, hmeta⟩
      refine ⟨Or.inr (Or.inr ⟨self, msg, rest, types, hp, htypes⟩), ?_⟩
      rintro ⟨hpub, self', msg', rest', types', hp', htypes', hne, hw⟩
      rw [hp] at hp'
      cases hp'
      have hleaves : msg.annotation.leaves ≠ [] := fun hnil => hne ((leaves_eq_nil htypes').1 hnil)
      refine ⟨hpub, ?_, _, ha, hplain, hleaves, hw⟩
      cases hs : static m.1 with
      | false => rfl
      | true => exact ((hstatic hs).elim hleaves fun hno => hno hw).elim
  · rintro ⟨hpass, hoffers⟩
    rcases hpass with hpriv | hone | ⟨self, msg, rest, types, hp, htypes⟩
    · exact Or.inl hpriv
    · exact Or.inr (Or.inl hone)
    · cases hpriv : isPrivate m.1 with
      | true => exact Or.inl hpriv
      | false =>
        obtain ⟨hplain, hmeta⟩ := gatherTypes_ok_iff.1 ⟨types, htypes⟩
        refine Or.inr (Or.inr ⟨_, messageHint_cons hp, hplain, hmeta, fun hs => ?_⟩)
        by_cases hne : msg.annotation.leaves = []
        · exact Or.inl hne
        · refine Or.inr fun hw => ?_
          have ht : types ≠ [] := fun hnil => hne ((leaves_eq_nil htypes).2 hnil)
          have hm := hoffers ⟨hpriv, self, msg, rest, types, hp, htypes, ht, hw⟩
          rw [hm.2.1] at hs
          cases hs

/-- A handler method the loop passes is one it makes metas for. -/
private theorem HandlerMethod.offers (hm : HandlerMethod g base static m) (hp : Passes g m) : Offers g base m := by
  obtain ⟨hpub, -, a, ha, -, hne, hw⟩ := hm
  obtain ⟨self, msg, rest, hparams, rfl⟩ := exists_params ha
  rcases hp with hpriv | ⟨self', hone⟩ | ⟨self', msg', rest', types, hparams', htypes⟩
  · rw [hpriv] at hpub
    cases hpub
  · rw [hparams] at hone
    cases hone
  · rw [hparams] at hparams'
    cases hparams'
    exact ⟨hpub, self, msg, rest, types, hparams, htypes, fun hnil => hne ((leaves_eq_nil htypes).2 hnil), hw⟩

/-- The metas made for a handler method. -/
private theorem methodMetas_handler {l : List FuncMeta} (hl : methodMetas g ord base owner m = .ok l)
    (hm : HandlerMethod g base static m) :
    ∃ types, types.Nodup ∧ (∀ T, T ∈ types ↔ ∃ a ∈ m.2.messageHint, ∃ c ∈ a.leaves, g.Sub T c) ∧
      l = metasOf types m.2 (m.2.params.drop 2) (some owner) := by
  have hoffers := hm.offers ((methodMetas_passes ord base owner).1 ⟨l, hl⟩)
  obtain ⟨l', hl', hne⟩ := (methodMetas_offers ord owner).2 hoffers
  rw [hl] at hl'
  cases hl'
  rcases methodMetas_ok hl with rfl | ⟨self, msg, rest, types, -, hp, htypes, -, rfl⟩
  · exact absurd rfl hne
  · refine ⟨ord.iter types, ord.iter_nodup (gatherTypes_nodup htypes), fun T => ?_, by rw [hp]; rfl⟩
    rw [ord.mem_iter, mem_gatherTypes htypes, messageHint_cons hp]
    simp

private theorem methodMetas_other {l : List FuncMeta} (hl : methodMetas g ord base owner m = .ok l)
    (hm : ¬ Offers g base m) : l = [] := by
  by_contra hne
  exact hm ((methodMetas_offers ord owner).1 ⟨l, hl, hne⟩)

/-- A member never ends the loop with the exception that says there is no handler. -/
private theorem methodMetas_error {e : PyErr} (h : methodMetas g ord base owner m = .error e) (b : Option Cls)
    (i : Nat) : e ≠ .messageHandlerNotFound b i := by
  unfold methodMetas at h
  split at h
  · cases h
  · split at h
    · cases h
    · cases h
      simp
    · split at h
      · rename_i e' he
        cases h
        rcases gatherTypes_error he with rfl | rfl | ⟨origin, rfl⟩ <;> simp
      · split at h <;> cases h

/-! ### All members -/

variable {ms : List (String × Func)} {metas spec : List FuncMeta}

/-- Harmless members are passed, and the handler methods among them registered. -/
private theorem methodMetasLoop_registers (ord : SetOrder) (owner : Cls) (h : ∀ n ∈ ms, Harmless g base static n) :
    ∃ metas, methodMetasLoop g ord base owner ms = .ok metas ∧ Registers g base static owner ms metas := by
  induction ms with
  | nil => exact ⟨[], rfl, .nil⟩
  | cons n ms ih =>
    obtain ⟨metas, hloop, hreg⟩ := ih fun k hk => h k (List.mem_cons_of_mem _ hk)
    obtain ⟨hpass, hoffers⟩ := harmless_iff.1 (h n List.mem_cons_self)
    obtain ⟨l, hl⟩ := (methodMetas_passes ord base owner).2 hpass
    refine ⟨l ++ metas, by simp only [methodMetasLoop, hl, hloop], ?_⟩
    by_cases hn : HandlerMethod g base static n
    · obtain ⟨types, hnodup, hmem, rfl⟩ := methodMetas_handler hl hn
      exact .handler hn hnodup hmem hreg
    · rw [methodMetas_other hl fun ho => hn (hoffers ho), List.nil_append]
      exact .other hn hreg

/-- The loop makes at least the metas of the handler methods, and more if it takes another member for one. -/
private theorem registers_length (hspec : Registers g base static owner ms spec)
    (hloop : methodMetasLoop g ord base owner ms = .ok metas) :
    spec.length ≤ metas.length ∧
      (spec.length = metas.length → ∀ n ∈ ms, Offers g base n → HandlerMethod g base static n) := by
  induction hspec generalizing metas with
  | nil => simp
  | @handler n ms types spec hn hnodup hmem _ ih =>
    obtain ⟨l, rest, hl, hrest, rfl⟩ := methodMetasLoop_cons hloop
    obtain ⟨hle, heq⟩ := ih hrest
    -- the types are a set with the same elements
    obtain ⟨types', hnodup', hmem', rfl⟩ := methodMetas_handler hl hn
    have hlen : types.length = types'.length :=
      ((List.perm_ext_iff_of_nodup hnodup hnodup').2 fun T => (hmem T).trans (hmem' T).symm).length_eq
    simp only [metasOf, List.length_append, List.length_map, hlen]
    refine ⟨by omega, fun h k hk ho => ?_⟩
    rcases List.mem_cons.1 hk with rfl | hk
    · exact hn
    · exact heq (by omega) k hk ho
  | @other n ms spec hn _ ih =>
    obtain ⟨l, rest, hl, hrest, rfl⟩ := methodMetasLoop_cons hloop
    obtain ⟨hle, heq⟩ := ih hrest
    rw [List.length_append]
    refine ⟨by omega, fun h k hk ho => ?_⟩
    rcases List.mem_cons.1 hk with rfl | hk
    · obtain ⟨l', hl', hne⟩ := (methodMetas_offers ord owner).2 ho
      rw [hl] at hl'
      cases hl'
      have hpos := List.length_pos_iff.2 hne
      omega
    · exact heq (by omega) k hk ho

/-- Where nothing is registered there is no handler method. -/
private theorem Registers.nil_iff (h : Registers g base static owner ms []) :
    ∀ n ∈ ms, ¬ HandlerMethod g base static n := by
  generalize hspec : ([] : List FuncMeta) = spec at h
  induction h with
  | nil => simp
  | @handler n ms types spec hn _ hmem _ _ =>
    obtain ⟨-, -, a, ha, -, hne, -⟩ := hn
    obtain ⟨c, hc⟩ := List.exists_mem_of_ne_nil _ hne
    have hT : c ∈ types := (hmem c).2 ⟨a, ha, c, hc, .refl⟩
    have hnil : types = [] := by
      have := (List.append_eq_nil_iff.1 hspec.symm).1
      simpa [metasOf] using this
    rw [hnil] at hT
    cases hT
  | other hn _ ih => exact List.forall_mem_cons.2 ⟨hn, ih hspec⟩

/-- For every class and message base: what `get_methodmetas` returns are the metas of the handler methods of the
class, and it raises `MessageHandlerNotFoundError` where there are none and nothing else, exactly when all members
are harmless. -/
theorem registers_handlers_iff (g : ClassGraph) (ord : SetOrder) (base : Cls) (static : String → Bool) (c : ClassObj) :
    ((∀ metas, getMethodmetas g ord base c = .ok metas → Registers g base static c.cls c.getmembers metas) ∧
      ∀ e, getMethodmetas g ord base c = .error e →
        e = .messageHandlerNotFound (some base) c.cls ∧ ∀ m ∈ c.body, ¬ HandlerMethod g base static m) ↔
      ∀ m ∈ c.body, Harmless g base static m := by
  have hmembers : ∀ P : String × Func → Prop, (∀ m ∈ c.body, P m) ↔ ∀ m ∈ c.getmembers, P m := by
    intro P
    simp only [mem_getmembers]
  rw [hmembers, hmembers]
  constructor
  · rintro ⟨hok, herror⟩ m hm
    cases hloop : methodMetasLoop g ord base c.cls c.getmembers with
    | error e =>
      -- the exception of a member
      obtain ⟨pre, n, post, -, -, hn⟩ := methodMetasLoop_error.1 hloop
      obtain ⟨he, -⟩ := herror e (by simp only [getMethodmetas, hloop])
      exact absurd he (methodMetas_error hn _ _)
    | ok metas =>
      have hpass : Passes g m := (methodMetas_passes ord base c.cls).1 (methodMetasLoop_each hloop hm)
      refine harmless_iff.2 ⟨hpass, ?_⟩
      rcases metas with _ | ⟨x, metas⟩
      · exact fun ho => absurd ho ((methodMetasLoop_nil ord c.cls).1 hloop m hm).2
      · have hreg := hok (x :: metas) (by simp only [getMethodmetas, hloop])
        exact (registers_length hreg hloop).2 rfl m hm
  · intro h
    obtain ⟨metas, hloop, hreg⟩ := methodMetasLoop_registers ord c.cls h
    rcases metas with _ | ⟨x, metas⟩
    · have hres : getMethodmetas g ord base c = .error (.messageHandlerNotFound (some base) c.cls) := by
        simp only [getMethodmetas, hloop]
      rw [hres]
      refine ⟨fun _ h => (by cases h), fun e he => ?_⟩
      cases he
      exact ⟨rfl, hreg.nil_iff⟩
    · have hres : getMethodmetas g ord base c = .ok (x :: metas) := by
        simp only [getMethodmetas, hloop]
      rw [hres]
      refine ⟨fun l hl => ?_, fun _ h => (by cases h)⟩
      cases hl
      exact hreg

end

/-! ### A static method beside a handler method -/

namespace HelloService

/-- `UserCommand` and `HelloService`, numbers 4 and 5. -/
def classes : ClassGraph := (ClassGraph.builtin.define [Cls.object]).define [Cls.object]

/-- `def create_user(self, command: UserCommand)` -/
def create_user : String × Func := ("create_user", ⟨1, [⟨"self", .empty⟩, ⟨"command", .cls 4⟩], false⟩)

/-- `@staticmethod def ping()` -/
def ping : String × Func := ("ping", ⟨2, [], false⟩)

def service : ClassObj := ⟨5, [create_user, ping], []⟩

/-- `ping` has no first parameter, and `create_user` is not registered. -/
theorem static_method_stops :
    getMethodmetas classes .listed 4 service = .error .valueError ∧
      create_user ∈ service.body ∧ HandlerMethod classes 4 (fun name => name == "ping") create_user := by
  refine ⟨rfl, by simp [service], rfl, rfl, .cls 4, rfl, rfl, List.cons_ne_nil 4 [], fun c hc => ?_⟩
  obtain rfl : c = 4 := List.mem_singleton.1 hc
  exact .refl

end HelloService

end Anywise
