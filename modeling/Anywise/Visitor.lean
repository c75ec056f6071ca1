import Anywise.Lib.Closure
import Anywise.Types

/-!
# `_visitor`: the classes an annotation stands for

`all_subclasses` asks a class for its direct subclasses and calls itself on each of them; on a class derived from
`type` the question raises `TypeError`.  `gather_types` walks an annotation and returns, with each class in it,
all subclasses that exist at that moment: `mem_gatherTypes`.
-/

namespace Anywise

/-! ### `all_subclasses` -/

/-- `cls.__subclasses__()`.  On a class derived from `type` this finds the unbound method. -/
def ClassGraph.callSubclasses (g : ClassGraph) (c : Cls) : Except PyErr (List Cls) :=
  if g.issubclass c Cls.type then .error .typeError else .ok (g.subclasses c)

/-- `all_subclasses(cls)`; the fuel is more than the number of classes (`allSubclasses_eq`). -/
def allSubclasses (g : ClassGraph) (c : Cls) : Except PyErr (List Cls) :=
  Closure.closure g.callSubclasses (g.size + 1) c

/-! ### `gather_types` -/

mutual

/-- `gather_types(annotation)`. -/
def gatherTypes (g : ClassGraph) : Annotation → Except PyErr (List Cls)
  | .empty => .ok []
  | .cls c =>
    match allSubclasses g c with
    | .error e => .error e
    | .ok subs => .ok ([c] ∪ subs)
  -- `all_subclasses` looks up `__subclasses__` on an object that is no class
  | .other _ => .error .attributeError
  | .annotated a => gatherTypes g a
  | .union args => gatherArgs g args
  | .generic origin _ => .error (.invalidMessageType origin)

/-- The loop over the members of a union. -/
def gatherArgs (g : ClassGraph) : List Annotation → Except PyErr (List Cls)
  | [] => .ok []
  | a :: args =>
    match gatherTypes g a with
    | .error e => .error e
    | .ok ts =>
      match gatherArgs g args with
      | .error e => .error e
      | .ok us => .ok (ts ∪ us)

end

mutual

/-- The classes an annotation names. -/
def Annotation.leaves : Annotation → List Cls
  | .empty => []
  | .cls c => [c]
  | .annotated a => a.leaves
  | .union args => leavesArgs args
  | .generic _ _ => []
  | .other _ => []

def leavesArgs : List Annotation → List Cls
  | [] => []
  | a :: args => a.leaves ++ leavesArgs args

end

mutual

/-- Nothing is annotated. -/
def Annotation.isBare : Annotation → Bool
  | .empty => true
  | .cls _ => false
  | .annotated a => a.isBare
  | .union args => bareArgs args
  | .generic _ _ => false
  | .other _ => false

def bareArgs : List Annotation → Bool
  | [] => true
  | a :: args => a.isBare && bareArgs args

end

mutual

/-- Only classes, under `Annotated` and unions. -/
def Annotation.isPlain : Annotation → Bool
  | .empty => true
  | .cls _ => true
  | .annotated a => a.isPlain
  | .union args => plainArgs args
  | .generic _ _ => false
  | .other _ => false

def plainArgs : List Annotation → Bool
  | [] => true
  | a :: args => a.isPlain && plainArgs args

end

/-! ### What `all_subclasses` returns -/

section Subclasses

variable {g : ClassGraph}

theorem callSubclasses_eq_ok {c : Cls} {l : List Cls} (h : g.callSubclasses c = .ok l) : l = g.subclasses c := by
  unfold ClassGraph.callSubclasses at h
  split at h
  · cases h
  · cases h
    rfl

theorem directSub_of_step {c d : Cls} (h : Closure.Step g.callSubclasses c d) : g.DirectSub d c := by
  obtain ⟨l, hl, hd⟩ := h
  rw [callSubclasses_eq_ok hl] at hd
  exact g.mem_subclasses.1 hd

private theorem rank_lt (c d : Cls) (h : Closure.Step g.callSubclasses c d) : g.size - d < g.size - c := by
  have hlt := g.lt_of_directSub (directSub_of_step h)
  exact Nat.sub_lt_sub_left (hlt.1.trans hlt.2) hlt.1

private theorem rank_fuel (c : Cls) : g.size - c < g.size + 1 := Nat.lt_succ_of_le (Nat.sub_le _ _)

/-- The recursion of the source. -/
theorem allSubclasses_eq (c : Cls) :
    allSubclasses g c = (g.callSubclasses c).bind fun subs => Closure.joinAll (allSubclasses g) subs subs :=
  Closure.closure_eq rank_lt (rank_fuel c)

/-- It calls itself on later classes only, so at most as deep as there are classes. -/
theorem allSubclasses_ends {c : Cls} {n : Nat} (hn : g.size < n) :
    Closure.closureWithin g.callSubclasses n c = some (allSubclasses g c) := by
  have hc : g.size - c < n := Nat.lt_of_le_of_lt (Nat.sub_le _ _) hn
  rw [Closure.closureWithin_eq rank_lt hc, allSubclasses, Closure.closure_fuel rank_lt hc (rank_fuel c)]

/-- Where every question succeeds, the answers walk the subclass relation downwards. -/
private theorem step_of_directSub {c d : Cls} (hok : ∃ bs, g.callSubclasses c = .ok bs) (h : g.DirectSub d c) :
    Closure.Step g.callSubclasses c d := by
  obtain ⟨bs, hbs⟩ := hok
  exact ⟨bs, hbs, callSubclasses_eq_ok hbs ▸ g.mem_subclasses.2 h⟩

/-- A successful `all_subclasses(c)` returns the strict subclasses of `c`. -/
theorem mem_allSubclasses {c d : Cls} {l : List Cls} (h : allSubclasses g c = .ok l) :
    d ∈ l ↔ Relation.TransGen g.DirectSub d c := by
  obtain ⟨hok, hmem⟩ := Closure.closure_ok rank_lt (rank_fuel c) h
  rw [hmem]
  constructor
  · intro hs
    induction hs with
    | single hcd => exact .single (directSub_of_step hcd)
    | tail _ hbd ih => exact .head (directSub_of_step hbd) ih
  · intro hs
    induction hs using Relation.TransGen.head_induction_on with
    | single hdc => exact .single (step_of_directSub (hok c .refl) hdc)
    | head hdb _ ih => exact ih.tail (step_of_directSub (hok _ ih.to_reflTransGen) hdb)

theorem allSubclasses_nodup {c : Cls} {l : List Cls} (h : allSubclasses g c = .ok l) : l.Nodup := by
  refine Closure.closure_nodup (fun x bs hbs => ?_) h
  rw [callSubclasses_eq_ok hbs]
  exact List.nodup_range.filter _

/-- The only exception `all_subclasses` raises. -/
theorem allSubclasses_error {c : Cls} {e : PyErr} (h : allSubclasses g c = .error e) : e = .typeError := by
  obtain ⟨x, -, hx⟩ := Closure.closure_error h
  unfold ClassGraph.callSubclasses at hx
  split at hx
  · cases hx
    rfl
  · cases hx

/-- It succeeds exactly on the classes that no metaclass derives from. -/
theorem allSubclasses_ok_iff {c : Cls} :
    (∃ l, allSubclasses g c = .ok l) ↔ ∀ d, g.Sub d c → ¬ g.Sub d Cls.type := by
  have hcall : ∀ d, (∃ l, g.callSubclasses d = .ok l) ↔ ¬ g.Sub d Cls.type := by
    intro d
    rw [← g.issubclass_iff]
    unfold ClassGraph.callSubclasses
    split <;> simp_all
  unfold allSubclasses
  rw [Closure.closure_ok_iff rank_lt (rank_fuel c)]
  constructor
  · intro h d hd
    have hreach : Relation.ReflTransGen (Closure.Step g.callSubclasses) c d := by
      induction hd using Relation.ReflTransGen.head_induction_on with
      | refl => exact .refl
      | head hdb _ ih => exact ih.tail (step_of_directSub (h _ ih) hdb)
    exact (hcall d).1 (h d hreach)
  · intro h d hd
    refine (hcall d).2 (h d ?_)
    induction hd with
    | refl => exact .refl
    | tail _ hxy ih => exact .head (directSub_of_step hxy) ih

end Subclasses

/-! ### What `gather_types` returns -/

section Gather

variable {g : ClassGraph}

private theorem mem_gather_cls {c d : Cls} {l : List Cls} (h : gatherTypes g (.cls c) = .ok l) :
    d ∈ l ↔ g.Sub d c := by
  unfold gatherTypes at h
  split at h
  · cases h
  · rename_i subs hsubs
    cases h
    rw [List.mem_union_iff, List.mem_singleton, mem_allSubclasses hsubs]
    rw [eq_comm]
    exact Relation.reflTransGen_iff_eq_or_transGen.symm

mutual

/-- A successful `gather_types` returns the classes named by the annotation and all their subclasses. -/
theorem mem_gatherTypes {a : Annotation} {l : List Cls} (h : gatherTypes g a = .ok l) {d : Cls} :
    d ∈ l ↔ ∃ c ∈ a.leaves, g.Sub d c := by
  match a with
  | .empty =>
    cases h
    unfold Annotation.leaves
    simp
  | .cls c =>
    unfold Annotation.leaves
    simpa using mem_gather_cls h
  | .other _ => cases h
  | .annotated a => exact mem_gatherTypes (a := a) h
  | .union args => exact mem_gatherArgs h
  | .generic _ _ => cases h

theorem mem_gatherArgs {args : List Annotation} {l : List Cls} (h : gatherArgs g args = .ok l) {d : Cls} :
    d ∈ l ↔ ∃ c ∈ leavesArgs args, g.Sub d c := by
  match args with
  | [] =>
    cases h
    simp [leavesArgs]
  | a :: args =>
    unfold gatherArgs at h
    split at h
    · cases h
    · rename_i ts hts
      split at h
      · cases h
      · rename_i us hus
        cases h
        rw [List.mem_union_iff, mem_gatherTypes hts, mem_gatherArgs hus]
        simp only [leavesArgs, List.mem_append, or_and_right, exists_or]

end

mutual

theorem gatherTypes_nodup {a : Annotation} {l : List Cls} (h : gatherTypes g a = .ok l) : l.Nodup := by
  match a with
  | .empty =>
    cases h
    exact List.nodup_nil
  | .cls c =>
    unfold gatherTypes at h
    split at h
    · cases h
    · rename_i subs hsubs
      cases h
      exact List.Nodup.union _ (allSubclasses_nodup hsubs)
  | .other _ => cases h
  | .annotated a => exact gatherTypes_nodup (a := a) h
  | .union args => exact gatherArgs_nodup h
  | .generic _ _ => cases h

theorem gatherArgs_nodup {args : List Annotation} {l : List Cls} (h : gatherArgs g args = .ok l) : l.Nodup := by
  match args with
  | [] =>
    cases h
    exact List.nodup_nil
  | a :: args =>
    unfold gatherArgs at h
    split at h
    · cases h
    · split at h
      · cases h
      · rename_i us hus
        cases h
        exact List.Nodup.union _ (gatherArgs_nodup hus)

end

mutual

/-- It asks for the subclasses of every class it meets. -/
theorem leaves_ok {a : Annotation} {l : List Cls} (h : gatherTypes g a = .ok l) {c : Cls} (hc : c ∈ a.leaves) :
    ∃ subs, allSubclasses g c = .ok subs := by
  match a with
  | .empty => cases hc
  | .cls d =>
    obtain rfl := List.mem_singleton.1 hc
    unfold gatherTypes at h
    split at h
    · cases h
    · rename_i subs hsubs
      exact ⟨subs, hsubs⟩
  | .other _ => cases h
  | .annotated a => exact leaves_ok (a := a) h hc
  | .union args => exact leavesArgs_ok h hc
  | .generic _ _ => cases h

theorem leavesArgs_ok {args : List Annotation} {l : List Cls} (h : gatherArgs g args = .ok l) {c : Cls}
    (hc : c ∈ leavesArgs args) : ∃ subs, allSubclasses g c = .ok subs := by
  match args with
  | [] => cases hc
  | a :: args =>
    unfold gatherArgs at h
    split at h
    · cases h
    · rename_i ts hts
      split at h
      · cases h
      · rename_i us hus
        rcases List.mem_append.1 hc with hc | hc
        · exact leaves_ok hts hc
        · exact leavesArgs_ok hus hc

end

mutual

/-- It succeeds exactly on the plain annotations whose classes no metaclass derives from. -/
theorem gatherTypes_ok_iff {a : Annotation} :
    (∃ l, gatherTypes g a = .ok l) ↔ a.isPlain = true ∧ ∀ c ∈ a.leaves, ∀ d, g.Sub d c → ¬ g.Sub d Cls.type := by
  match a with
  | .empty => simp [gatherTypes, Annotation.isPlain, Annotation.leaves]
  | .cls c =>
    have hcls : (∃ l, gatherTypes g (.cls c) = .ok l) ↔ ∃ l, allSubclasses g c = .ok l := by
      unfold gatherTypes
      cases allSubclasses g c <;> simp
    rw [hcls, allSubclasses_ok_iff, Annotation.isPlain, Annotation.leaves]
    simp
  | .other _ => simp [gatherTypes, Annotation.isPlain]
  | .annotated a =>
    unfold gatherTypes Annotation.isPlain Annotation.leaves
    exact gatherTypes_ok_iff
  | .union args =>
    unfold gatherTypes Annotation.isPlain Annotation.leaves
    exact gatherArgs_ok_iff
  | .generic _ _ => simp [gatherTypes, Annotation.isPlain]

theorem gatherArgs_ok_iff {args : List Annotation} :
    (∃ l, gatherArgs g args = .ok l) ↔
      plainArgs args = true ∧ ∀ c ∈ leavesArgs args, ∀ d, g.Sub d c → ¬ g.Sub d Cls.type := by
  match args with
  | [] => simp [gatherArgs, plainArgs, leavesArgs]
  | a :: args =>
    have hcons : (∃ l, gatherArgs g (a :: args) = .ok l) ↔
        (∃ l, gatherTypes g a = .ok l) ∧ ∃ l, gatherArgs g args = .ok l := by
      rw [gatherArgs.eq_2]
      cases gatherTypes g a with
      | error e => simp
      | ok ts => cases gatherArgs g args <;> simp
    rw [hcons, gatherTypes_ok_iff, gatherArgs_ok_iff]
    simp only [plainArgs, leavesArgs, Bool.and_eq_true, List.mem_append, or_imp, forall_and]
    tauto

end

/-- `object` is never gathered: `type` is among its subclasses. -/
theorem object_notMem_gatherTypes {a : Annotation} {l : List Cls} (h : gatherTypes g a = .ok l) :
    Cls.object ∉ l := by
  intro hmem
  obtain ⟨c, hc, hsub⟩ := (mem_gatherTypes h).1 hmem
  obtain rfl : c = Cls.object := Nat.le_zero.1 (g.le_of_sub hsub)
  exact allSubclasses_ok_iff.1 (leaves_ok h hc) Cls.type (.single g.type_sub_object) .refl

mutual

/-- It returns the empty set exactly when nothing is annotated. -/
theorem gatherTypes_eq_nil {a : Annotation} : gatherTypes g a = .ok [] ↔ a.isBare = true := by
  match a with
  | .empty => simp [gatherTypes, Annotation.isBare]
  | .cls c =>
    unfold gatherTypes Annotation.isBare
    cases allSubclasses g c with
    | error e => simp
    | ok subs =>
      have hne : [c] ∪ subs ≠ [] :=
        List.ne_nil_of_mem (List.mem_union_iff.2 (Or.inl (List.mem_singleton_self c)))
      simp only [Except.ok.injEq, hne, Bool.false_eq_true]
  | .other _ => simp [gatherTypes, Annotation.isBare]
  | .annotated a =>
    unfold gatherTypes Annotation.isBare
    exact gatherTypes_eq_nil
  | .union args =>
    unfold gatherTypes Annotation.isBare
    exact gatherArgs_eq_nil
  | .generic _ _ => simp [gatherTypes, Annotation.isBare]

theorem gatherArgs_eq_nil {args : List Annotation} : gatherArgs g args = .ok [] ↔ bareArgs args = true := by
  match args with
  | [] => simp [gatherArgs, bareArgs]
  | a :: args =>
    unfold gatherArgs bareArgs
    rw [Bool.and_eq_true, ← gatherTypes_eq_nil, ← gatherArgs_eq_nil]
    cases gatherTypes g a with
    | error e => simp
    | ok ts =>
      cases gatherArgs g args with
      | error e => simp
      | ok us =>
        -- a union of sets is empty when both are
        simp only [Except.ok.injEq, List.eq_nil_iff_forall_not_mem, List.mem_union_iff, not_or, forall_and]

end

end Gather

end Anywise
