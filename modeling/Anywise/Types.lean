import Mathlib.Data.List.Basic
import Mathlib.Data.List.Infix
import Mathlib.Logic.Relation

/-!
# Classes, annotations and other Python objects

The objects the library computes with.  Classes stand in the order of their definition, so that the bases of a
class come before it (`ClassGraph`); `object`, `type`, `typing.Any` and `BaseGuard` are the first four.  An
annotation is kept as far as `get_origin`, `get_args` and `is_contextparam` look into it.  The iteration order of
a `set` is not specified by Python: wherever the source iterates over a set of classes, a `SetOrder` says in which
order.
-/

namespace Anywise

/-! ### Classes -/

/-- A class, named by its place in the order of definition. -/
abbrev Cls := Nat

namespace Cls

def object : Cls := 0

def type : Cls := 1

def any : Cls := 2

def baseGuard : Cls := 3

end Cls

/-- The classes of the process: for each its direct bases, defined before it. -/
structure ClassGraph where
  bases : List (List Cls)
  builtins : [[], [Cls.object], [Cls.object], [Cls.object]] <+: bases
  acyclic : ∀ (c : Cls) (bs : List Cls), bases[c]? = some bs → ∀ b ∈ bs, b < c
  rooted : ∀ c : Cls, bases[c]? = some [] → c = Cls.object

namespace ClassGraph

/-- Before any class is defined by the user. -/
def builtin : ClassGraph where
  bases := [[], [Cls.object], [Cls.object], [Cls.object]]
  builtins := List.prefix_rfl
  acyclic := by
    rintro (_ | _ | _ | _ | c) bs h b hb <;> simp [Cls.object] at h <;> subst h <;> simp_all
  rooted := by
    rintro (_ | _ | _ | _ | c) h <;> simp_all [Cls.object]

def size (g : ClassGraph) : Nat := g.bases.length

def basesOf (g : ClassGraph) (c : Cls) : List Cls := (g.bases[c]?).getD []

/-- `cls.__subclasses__()` for a class that does not derive from `type`. -/
def subclasses (g : ClassGraph) (c : Cls) : List Cls :=
  (List.range g.size).filter fun d => decide (c ∈ g.basesOf d)

/-- The bases a `class` statement may name. -/
def Definable (g : ClassGraph) (bs : List Cls) : Prop := bs ≠ [] ∧ ∀ b ∈ bs, b < g.size

instance (g : ClassGraph) (bs : List Cls) : Decidable (g.Definable bs) :=
  inferInstanceAs (Decidable (_ ∧ _))

/-- A `class` statement: the new class is number `g.size`. -/
def define (g : ClassGraph) (bs : List Cls) : ClassGraph :=
  if h : g.Definable bs then
    { bases := g.bases ++ [bs]
      builtins := g.builtins.trans (List.prefix_append _ _)
      acyclic := by
        intro c cs hc b hb
        rcases Nat.lt_or_ge c g.size with hlt | hge
        · rw [List.getElem?_append_left hlt] at hc
          exact g.acyclic c cs hc b hb
        · rw [List.getElem?_append_right hge] at hc
          obtain ⟨-, rfl⟩ : c - g.bases.length = 0 ∧ bs = cs := by
            simpa [List.getElem?_singleton] using hc
          exact Nat.lt_of_lt_of_le (h.2 b hb) hge
      rooted := by
        intro c hc
        rcases Nat.lt_or_ge c g.size with hlt | hge
        · rw [List.getElem?_append_left hlt] at hc
          exact g.rooted c hc
        · rw [List.getElem?_append_right hge] at hc
          have : bs = [] := (by simpa [List.getElem?_singleton] using hc : _ ∧ bs = []).2
          exact absurd this h.1 }
  else g

/-- `issubclass`, at most `fuel` inheritance steps deep. -/
def issubclassFuel (g : ClassGraph) (c : Cls) : Nat → Cls → Bool
  | 0, d => d == c
  | fuel + 1, d => d == c || (g.basesOf d).any (issubclassFuel g c fuel)

/-- `issubclass(d, c)`. -/
def issubclass (g : ClassGraph) (d c : Cls) : Bool := g.issubclassFuel c d d

/-- `c` is a direct base of `d`. -/
def DirectSub (g : ClassGraph) (d c : Cls) : Prop := c ∈ g.basesOf d

/-- `d` is `c` or derives from it. -/
def Sub (g : ClassGraph) (d c : Cls) : Prop := Relation.ReflTransGen g.DirectSub d c

end ClassGraph

/-! ### Annotations and functions -/

def CTX_MARKER : String := "__anywise_context__"

/-- An annotation.  `value` is the `__metadata__` of its `__value__`, which type aliases have. -/
inductive Annotation
  /-- `inspect.Signature.empty` -/
  | empty
  /-- a class -/
  | cls (c : Cls)
  /-- `Annotated[a, …]` -/
  | annotated (a : Annotation)
  /-- `X | Y` and `Union[X, Y]` -/
  | union (args : List Annotation)
  /-- any other annotation with an origin: `list[str]`, `Context[…]` -/
  | generic (origin : Nat) (value : Option (List String))
  /-- an annotation without origin that is no class: `None`, a string, a bare alias -/
  | other (value : Option (List String))

structure Param where
  name : String
  annotation : Annotation

abbrev FuncId := Nat

/-- A function: its identity, its parameters and whether it is a coroutine function. -/
structure Func where
  id : FuncId
  params : List Param
  isCoroutine : Bool

/-- A class given as an object: its function members in the order of the class body, and the parameters of its
`__call__`. -/
structure ClassObj where
  cls : Cls
  body : List (String × Func)
  call : List Param

/-- `Target`: what is given to a registry. -/
inductive Target
  | func (f : Func)
  | cls (c : ClassObj)
  /-- neither a function nor a class: an instance, a module, … -/
  | other (id : Nat)

/-- The identity of a given object, for error messages and as a callable. -/
def Target.id : Target → Nat
  | .func f => f.id
  | .cls c => c.cls
  | .other i => i

/-! ### Guard objects -/

/-- A guard object: a `Guard` made by `pre_handle` or `post_handle`, one for each target, or an instance of a
guard class.  `registry`, `serial` and `target` tell the `Guard` objects apart. -/
inductive GuardObj
  | guard (registry serial : Nat) (target : Cls) (preHandle postHandle : Option FuncId)
  | custom (id : Nat) (cls : Cls)
  deriving DecidableEq

/-! ### Exceptions -/

/-- The exceptions the library raises, with what it puts into them, and those of user code. -/
inductive PyErr
  | typeError
  | attributeError
  | valueError
  | invalidMessageType (origin : Nat)
  | messageHandlerNotFound (baseType : Option Cls) (handler : Nat)
  | invalidHandler (baseType msgType : Cls) (handler : FuncId)
  | notSupportedHandlerType (handler : Nat)
  | unregisteredMessage (msg : Cls)
  | dunglingGuard (guard : GuardObj)
  | unregisteredEvent (typeId : String)
  | validationError
  | dbapiError
  | user (id : Nat)
  deriving DecidableEq

/-- The subclasses of `HandlerRegisterFailError`. -/
def PyErr.isHandlerRegisterFail : PyErr → Bool
  | .invalidMessageType _ => true
  | .messageHandlerNotFound _ _ => true
  | .invalidHandler _ _ _ => true
  | _ => false

/-! ### Sets -/

/-- In which order sets of classes are iterated over. -/
structure SetOrder where
  iter : List Cls → List Cls
  perm : ∀ s, (iter s).Perm s

/-- The order in which the model lists a set. -/
def SetOrder.listed : SetOrder := ⟨id, fun _ => .rfl⟩

namespace SetOrder

variable (ord : SetOrder)

@[simp]
theorem mem_iter {s : List Cls} {c : Cls} : c ∈ ord.iter s ↔ c ∈ s := (ord.perm s).mem_iff

theorem iter_nodup {s : List Cls} (h : s.Nodup) : (ord.iter s).Nodup := (ord.perm s).nodup_iff.2 h

@[simp]
theorem iter_eq_nil {s : List Cls} : ord.iter s = [] ↔ s = [] := by
  constructor <;> intro h
  · exact List.Perm.nil_eq (h ▸ ord.perm s) |>.symm
  · subst h
    exact List.Perm.eq_nil (ord.perm [])

end SetOrder

/-! ### The subclass relation -/

namespace ClassGraph

variable (g : ClassGraph)

theorem directSub_iff {d c : Cls} : g.DirectSub d c ↔ ∃ bs, g.bases[d]? = some bs ∧ c ∈ bs := by
  unfold DirectSub basesOf
  cases g.bases[d]? <;> simp

theorem lt_of_directSub {d c : Cls} (h : g.DirectSub d c) : c < d ∧ d < g.size := by
  obtain ⟨bs, hbs, hc⟩ := g.directSub_iff.1 h
  exact ⟨g.acyclic d bs hbs c hc, (List.getElem?_eq_some_iff.1 hbs).1⟩

theorem mem_subclasses {c d : Cls} : d ∈ g.subclasses c ↔ g.DirectSub d c := by
  unfold subclasses
  rw [List.mem_filter, List.mem_range]
  constructor
  · intro h
    simpa [DirectSub] using h.2
  · intro h
    exact ⟨(g.lt_of_directSub h).2, by simpa [DirectSub] using h⟩

theorem issubclassFuel_iff {c d : Cls} {fuel : Nat} (h : d ≤ fuel) :
    g.issubclassFuel c fuel d = true ↔ g.Sub d c := by
  induction fuel generalizing d with
  | zero =>
    rw [issubclassFuel, beq_iff_eq]
    constructor
    · rintro rfl
      exact .refl
    · intro hs
      rcases Relation.ReflTransGen.cases_head hs with rfl | ⟨b, hb, -⟩
      · rfl
      · exact absurd ((g.lt_of_directSub hb).1.trans_le h) (Nat.not_lt_zero b)
  | succ fuel ih =>
    rw [issubclassFuel, Bool.or_eq_true, beq_iff_eq, List.any_eq_true]
    constructor
    · rintro (rfl | ⟨b, hb, hs⟩)
      · exact .refl
      · have hlt := Nat.le_of_lt_succ ((g.lt_of_directSub hb).1.trans_le h)
        exact .head hb ((ih hlt).1 hs)
    · intro hs
      rcases Relation.ReflTransGen.cases_head hs with rfl | ⟨b, hb, hs⟩
      · exact Or.inl rfl
      · have hlt := Nat.le_of_lt_succ ((g.lt_of_directSub hb).1.trans_le h)
        exact Or.inr ⟨b, hb, (ih hlt).2 hs⟩

theorem issubclass_iff {d c : Cls} : g.issubclass d c = true ↔ g.Sub d c := g.issubclassFuel_iff le_rfl

theorem le_of_sub {d c : Cls} (h : g.Sub d c) : c ≤ d := by
  induction h with
  | refl => exact le_rfl
  | tail _ hbc ih => exact (Nat.le_of_lt (g.lt_of_directSub hbc).1).trans ih

theorem type_sub_object : g.DirectSub Cls.type Cls.object := by
  rw [directSub_iff]
  obtain ⟨t, ht⟩ := g.builtins
  rw [← ht]
  exact ⟨[Cls.object], rfl, List.mem_singleton_self _⟩

/-! ### Defining classes -/

theorem size_define (bs : List Cls) : (g.define bs).size = if g.Definable bs then g.size + 1 else g.size := by
  unfold define size
  split <;> simp

theorem directSub_define {bs : List Cls} {d c : Cls} :
    (g.define bs).DirectSub d c ↔ g.DirectSub d c ∨ (g.Definable bs ∧ d = g.size ∧ c ∈ bs) := by
  unfold define
  by_cases h : g.Definable bs
  · rw [dif_pos h, directSub_iff, directSub_iff]
    simp only [h, true_and]
    rcases Nat.lt_trichotomy d g.size with hlt | rfl | hgt
    · rw [List.getElem?_append_left hlt]
      simp [Nat.ne_of_lt hlt]
    · simp [size]
    · have h1 : (g.bases ++ [bs])[d]? = none := List.getElem?_eq_none (by simpa [size] using Nat.succ_le_of_lt hgt)
      have h2 : g.bases[d]? = none := List.getElem?_eq_none (Nat.le_of_lt hgt)
      simp [h1, h2, Nat.ne_of_gt hgt]
  · simp [h]

/-- The relations among the classes defined before stay as they are. -/
theorem sub_of_sub_define {bs : List Cls} {d c : Cls} (h : (g.define bs).Sub d c) (hd : d < g.size) :
    g.Sub d c := by
  induction h with
  | refl => exact .refl
  | @tail b c hdb hbc ih =>
    rcases g.directSub_define.1 hbc with hbc | ⟨-, rfl, -⟩
    · exact ih.tail hbc
    · exact absurd ((g.define bs).le_of_sub hdb) (Nat.not_le_of_lt hd)

/-- `g'` has come out of `g` by class statements: about the classes of `g` it says the same. -/
structure Extends (g g' : ClassGraph) : Prop where
  size_le : g.size ≤ g'.size
  sub : ∀ d c, d < g.size → g'.Sub d c → g.Sub d c

theorem Extends.refl : g.Extends g := ⟨le_rfl, fun _ _ _ h => h⟩

theorem Extends.define {g g' : ClassGraph} (h : g.Extends g') (bs : List Cls) : g.Extends (g'.define bs) where
  size_le := by
    rw [size_define]
    split
    · exact h.size_le.trans (Nat.le_succ _)
    · exact h.size_le
  sub d c hd hs := h.sub d c hd (g'.sub_of_sub_define hs (Nat.lt_of_lt_of_le hd h.size_le))

end ClassGraph

end Anywise
