import Anywise.Gathering
import Anywise.Registration

/-!
# Guards given as classes and as instances

`add_guards` takes a guard class or an instance of one, and `register` a guard class among the handlers.  Either
should append one meta for each class the command parameter of `__call__` stands for.  `get_guardtarget` knows classes
and functions only, so an instance is rejected (`guard_registered_iff`).
-/

namespace Anywise

/-! ### Annotations that name a class -/

mutual

theorem isBare_of_leaves {a : Annotation} (ha : a.isPlain = true) (hl : a.leaves = []) : a.isBare = true := by
  match a with
  | .empty => rfl
  | .cls _ => cases hl
  | .annotated a => exact isBare_of_leaves (a := a) ha hl
  | .union args =>
    have ha' : plainArgs args = true := ha
    exact bareArgs_of_leaves ha' hl
  | .generic _ _ => cases ha
  | .other _ => cases ha

theorem bareArgs_of_leaves {args : List Annotation} (ha : plainArgs args = true) (hl : leavesArgs args = []) :
    bareArgs args = true := by
  match args with
  | [] => rfl
  | a :: args =>
    unfold plainArgs at ha
    unfold leavesArgs at hl
    rw [Bool.and_eq_true] at ha
    rw [List.append_eq_nil_iff] at hl
    rw [bareArgs, isBare_of_leaves ha.1 hl.1, bareArgs_of_leaves ha.2 hl.2, Bool.and_self]

end

/-- `T` is a class the annotation names, or derives from one. -/
def StandsFor (g : ClassGraph) (a : Annotation) (T : Cls) : Prop := ∃ c ∈ a.leaves, g.Sub T c

namespace MessageRegistry

/-- The guard is the class `c` or an instance of it. -/
def GuardArg.IsOf (guard : GuardArg) (c : ClassObj) : Prop := guard = .cls c ∨ ∃ i, guard = .inst i c.cls

/-- From `r` has come `res`, without an exception, by one meta for each class that `a` stands for. -/
structure AppendsGuard (g : ClassGraph) (r : MessageRegistry) (a : Annotation) (ref : GuardRef)
    (res : MessageRegistry × Except PyErr Unit) : Prop where
  returns : res.2 = .ok ()
  appended : ∀ T, StandsFor g a T → res.1.guardMapping.get? T = some (r.guardMapping.getD T ++ [⟨T, ref⟩])
  others : ∀ T, ¬ StandsFor g a T → res.1.guardMapping.get? T = r.guardMapping.get? T

variable {g : ClassGraph} {ord : SetOrder} {r : MessageRegistry} {c : ClassObj} {self p : Param} {rest : List Param}

/-! ### Appending -/

theorem get?_appendGuards {targets : List Cls} (ht : targets.Nodup) (d : Dict Cls (List GuardMeta))
    (ref : Cls → GuardRef) (T : Cls) :
    (appendGuards d (ord.iter targets) ref).get? T =
      if T ∈ targets then some (d.getD T ++ [⟨T, ref T⟩]) else d.get? T := by
  have hmetas : appendGuards d (ord.iter targets) ref =
      ((ord.iter targets).map fun t => (⟨t, ref t⟩ : GuardMeta)).foldl
        (fun d m => d.extend m.guardTarget [m]) d := by
    rw [List.foldl_map]
    rfl
  have hone := Dict.getD_foldl_extend (ord.iter targets) (fun t => (⟨t, ref t⟩ : GuardMeta)) (ord.iter_nodup ht)
    Dict.empty T
  rw [hmetas, Dict.get?_foldl_extend_key]
  by_cases hT : T ∈ targets
  · -- the filtered metas are what an empty dictionary would get
    have hfilter := Dict.getD_foldl_extend_key GuardMeta.guardTarget
      ((ord.iter targets).map fun t => (⟨t, ref t⟩ : GuardMeta)) Dict.empty T
    rw [List.foldl_map, hone] at hfilter
    simp only [Dict.getD_empty, List.nil_append, ord.mem_iter, hT, ↓reduceIte] at hfilter
    simp [hT, ← hfilter]
  · simp [hT]

/-- A guard class whose targets are gathered. -/
theorem addGuards_appends (hcall : c.call = self :: p :: rest) {targets : List Cls}
    (ht : gatherTypes g p.annotation = .ok targets) :
    AppendsGuard g r p.annotation (.cls c.cls) (r.addGuards g ord [.cls c]) := by
  have htarget : r.getGuardtarget g (GuardArg.cls c).target = .ok targets := by
    simp [getGuardtarget, GuardArg.target, hcall, ht]
  have hres : r.addGuards g ord [.cls c] = ({ r with
      guardMapping := appendGuards r.guardMapping (ord.iter targets) fun _ => .cls c.cls }, .ok ()) := by
    simp [addGuards, forEach, attempt, addGuard, htarget, GuardArg.ref]
  have hget : ∀ T, (appendGuards r.guardMapping (ord.iter targets) fun _ => .cls c.cls).get? T =
      if T ∈ targets then some (r.guardMapping.getD T ++ [⟨T, .cls c.cls⟩]) else r.guardMapping.get? T :=
    fun T => get?_appendGuards (gatherTypes_nodup ht) r.guardMapping _ T
  have hmem : ∀ T, T ∈ targets ↔ StandsFor g p.annotation T := fun T => mem_gatherTypes ht
  rw [hres]
  refine ⟨rfl, fun T hT => ?_, fun T hT => ?_⟩
  · rw [hget, if_pos ((hmem T).2 hT)]
  · rw [hget, if_neg (mt (hmem T).1 hT)]

/-- Whatever `get_guardtarget` raises, `add_guards` raises. -/
theorem addGuards_raises {guard : GuardArg} {e : PyErr} (he : r.getGuardtarget g guard.target = .error e) :
    r.addGuards g ord [guard] = (r, .error e) := by
  simp [addGuards, forEach, attempt, addGuard, he]

/-- `register` gives a guard class to `add_guards`. -/
theorem register_guardClass (hsub : g.Sub c.cls Cls.baseGuard) :
    r.register g ord [.cls c] [] [] = r.addGuards g ord [.cls c] := by
  have hclass := g.issubclass_iff.2 hsub
  simp only [register, forEach, hclass, ↓reduceIte]
  rcases r.addGuards g ord [.cls c] with ⟨r', e | u⟩ <;> rfl

/-- An instance goes the way of a handler in `register`. -/
theorem guardMapping_register_instance (i : Nat) :
    (r.register g ord [.other i] [] []).1.guardMapping = r.guardMapping := by
  have hsame := (_register_spec g ord r (.other i)).1.guardMapping
  simp only [register, forEach]
  generalize hres : r._register g ord (.other i) = res at hsame
  rcases res with ⟨r', e | u⟩ <;> exact hsame

/-! ### When a guard is registered -/

private theorem getGuardtarget_cls (hcall : c.call = self :: p :: rest) :
    r.getGuardtarget g (.cls c) = gatherTypes g p.annotation := by
  simp [getGuardtarget, hcall]

private theorem gatherTypes_of_noMetaclass {a : Annotation} (ha : a.isPlain = true) :
    (∃ l, gatherTypes g a = .ok l) ↔ NoMetaclass g a := by
  rw [gatherTypes_ok_iff, ha]
  simp [NoMetaclass]

/-- A guard class is appended when its targets can be gathered. -/
private theorem addGuards_cls_iff (hcall : c.call = self :: p :: rest) (ha : p.annotation.isPlain = true) :
    AppendsGuard g r p.annotation (.cls c.cls) (r.addGuards g ord [.cls c]) ↔ NoMetaclass g p.annotation := by
  rw [← gatherTypes_of_noMetaclass ha]
  constructor
  · intro happ
    cases ht : gatherTypes g p.annotation with
    | ok l => exact ⟨l, rfl⟩
    | error e =>
      have hres := happ.returns
      rw [addGuards_raises ((getGuardtarget_cls hcall).trans ht)] at hres
      cases hres
  · rintro ⟨targets, ht⟩
    exact addGuards_appends hcall ht

/-- `register` takes an instance for a handler: a class that the annotation names gets nothing. -/
private theorem not_appends_inst {a : Annotation} (ha : a.isPlain = true) (hb : a.isBare = false)
    (ref : GuardRef) (i : Nat) : ¬ AppendsGuard g r a ref (r.register g ord [.other i] [] []) := by
  intro happ
  obtain ⟨d, hd⟩ := List.exists_mem_of_ne_nil a.leaves fun hnil => by
    rw [isBare_of_leaves ha hnil] at hb
    cases hb
  have hget := happ.appended d ⟨d, hd, .refl⟩
  rw [guardMapping_register_instance i] at hget
  have hlist := congrArg (fun l => (Option.getD l []).length) hget
  simp [Dict.getD] at hlist

/-- A guard given as a class or as an instance, whose command parameter is annotated with classes: `add_guards`, and
`register` where its class derives from `BaseGuard`, append a meta for each class the annotation stands for exactly
when it is given as a class and no metaclass is below the classes named; an instance never has the targets of its
class. -/
theorem guard_registered_iff (g : ClassGraph) (ord : SetOrder) (r : MessageRegistry) (c : ClassObj) (self p : Param)
    (rest : List Param) (hcall : c.call = self :: p :: rest) (ha : p.annotation.isPlain = true)
    (hb : p.annotation.isBare = false) (guard : GuardArg) (hguard : guard.IsOf c) :
    (AppendsGuard g r p.annotation guard.ref (r.addGuards g ord [guard]) ↔
      guard = .cls c ∧ NoMetaclass g p.annotation) ∧
    (g.Sub c.cls Cls.baseGuard →
      (AppendsGuard g r p.annotation guard.ref (r.register g ord [guard.target] [] []) ↔
        guard = .cls c ∧ NoMetaclass g p.annotation)) ∧
    (r.getGuardtarget g guard.target = r.getGuardtarget g (.cls c) ↔ guard = .cls c) := by
  rcases hguard with rfl | ⟨i, rfl⟩
  · have hadd : AppendsGuard g r p.annotation (.cls c.cls) (r.addGuards g ord [.cls c]) ↔
        NoMetaclass g p.annotation := addGuards_cls_iff hcall ha
    refine ⟨by simpa [GuardArg.ref] using hadd, fun hsub => ?_, by simp [GuardArg.target]⟩
    simp only [GuardArg.target, register_guardClass hsub, true_and]
    exact hadd
  · have hraise : r.getGuardtarget g (GuardArg.inst i c.cls).target =
        .error (.messageHandlerNotFound r.commandBase i) := rfl
    have hno : ¬ (GuardArg.inst i c.cls = .cls c ∧ NoMetaclass g p.annotation) := by
      rintro ⟨hcls, -⟩
      cases hcls
    refine ⟨iff_of_false (fun happ => ?_) hno,
      fun _ => iff_of_false (not_appends_inst ha hb _ i) hno, iff_of_false (fun heq => ?_) (fun hcls => ?_)⟩
    · rw [addGuards_raises hraise] at happ
      cases happ.returns
    · rw [hraise, getGuardtarget_cls hcall] at heq
      rcases gatherTypes_error heq.symm with he | he | ⟨o, he⟩ <;> cases he
    · cases hcls

/-! ### The logging guard -/

namespace UserGuards

/-- `UserCommand`, `CreateUser` and `LogginGuard`, numbers 4 to 6. -/
def classes : ClassGraph :=
  ((ClassGraph.builtin.define [Cls.object]).define [4]).define [Cls.baseGuard]

/-- `async def __call__(self, command: UserCommand, context)` -/
def logginGuard : ClassObj :=
  ⟨6, [], [⟨"self", .empty⟩, ⟨"command", .cls 4⟩, ⟨"context", .generic 0 (some [CTX_MARKER])⟩]⟩

def registry : MessageRegistry := .new 0 (some 4) none

/-- `add_guards(LogginGuard(...))` registers nothing. -/
theorem logginGuard_instance_rejected :
    ¬ AppendsGuard classes registry (.cls 4) (GuardArg.inst 0 6).ref
        (registry.addGuards classes .listed [.inst 0 6]) ∧
      registry.getGuardtarget classes (GuardArg.inst 0 6).target ≠
        registry.getGuardtarget classes (.cls logginGuard) := by
  constructor
  · intro happ
    cases happ.returns
  · intro heq
    have hcls : registry.getGuardtarget classes (.cls logginGuard) = .ok [4, 5] := by decide
    rw [hcls] at heq
    cases heq

/-- `add_guards(LogginGuard)` and `register(LogginGuard)` append it for both commands. -/
theorem logginGuard_class_registered :
    AppendsGuard classes registry (.cls 4) (GuardArg.cls logginGuard).ref
        (registry.addGuards classes .listed [.cls logginGuard]) ∧
      AppendsGuard classes registry (.cls 4) (GuardArg.cls logginGuard).ref
        (registry.register classes .listed [.cls logginGuard] [] []) := by
  have hno : NoMetaclass classes (.cls 4) := (gatherTypes_ok_iff.1 ⟨[4, 5], by decide⟩).2
  have hsub : classes.Sub 6 Cls.baseGuard := classes.issubclass_iff.1 (by decide)
  obtain ⟨hadd, hregister, -⟩ := guard_registered_iff classes .listed registry logginGuard ⟨"self", .empty⟩
    ⟨"command", .cls 4⟩ [⟨"context", .generic 0 (some [CTX_MARKER])⟩] rfl rfl rfl (.cls logginGuard) (Or.inl rfl)
  exact ⟨hadd.2 ⟨rfl, hno⟩, (hregister hsub).2 ⟨rfl, hno⟩⟩

end UserGuards

end MessageRegistry

end Anywise
