import Anywise.Visitor

/-!
# What `gather_types` computes

On annotations built from classes, `Annotated`, unions and other generics, over classes without metaclasses below
them, `gather_types` ends (`gatherTypesWithin` counts the calls), raises `InvalidMessageTypeError` exactly when it
meets a generic, and returns the set of the subclasses of the classes named otherwise.
-/

namespace Anywise

mutual

/-- Built from classes, `Annotated`, unions and other generics. -/
def Annotation.isTyping : Annotation → Bool
  | .empty => true
  | .cls _ => true
  | .annotated a => a.isTyping
  | .union args => typingArgs args
  | .generic _ _ => true
  | .other _ => false

def typingArgs : List Annotation → Bool
  | [] => true
  | a :: args => a.isTyping && typingArgs args

end

mutual

/-- The origins of the generics among the leaves. -/
def Annotation.generics : Annotation → List Nat
  | .empty => []
  | .cls _ => []
  | .annotated a => a.generics
  | .union args => genericsArgs args
  | .generic origin _ => [origin]
  | .other _ => []

def genericsArgs : List Annotation → List Nat
  | [] => []
  | a :: args => a.generics ++ genericsArgs args

end

/-- No metaclass is among the subclasses of the classes named. -/
def NoMetaclass (g : ClassGraph) (a : Annotation) : Prop := ∀ c ∈ a.leaves, ∀ d, g.Sub d c → ¬ g.Sub d Cls.type

/-- Both raise `InvalidMessageTypeError`, or both return, and the same set. -/
inductive SameResult : Except PyErr (List Cls) → Except PyErr (List Cls) → Prop
  | raised (o o' : Nat) : SameResult (.error (.invalidMessageType o)) (.error (.invalidMessageType o'))
  | returned {l l' : List Cls} (h : ∀ d, d ∈ l ↔ d ∈ l') : SameResult (.ok l) (.ok l')

/-! ### Counting calls -/

/-- The loop over the members of a union, over calls of which some may not have ended. -/
def gatherArgsWithin (f : Annotation → Option (Except PyErr (List Cls))) :
    List Annotation → Option (Except PyErr (List Cls))
  | [] => some (.ok [])
  | a :: args =>
    match f a with
    | none => none
    | some (.error e) => some (.error e)
    | some (.ok ts) =>
      match gatherArgsWithin f args with
      | none => none
      | some (.error e) => some (.error e)
      | some (.ok us) => some (.ok (ts ∪ us))

/-- `gather_types(annotation)`; `none` when it has not ended `depth` calls deep. -/
def gatherTypesWithin (g : ClassGraph) : Nat → Annotation → Option (Except PyErr (List Cls))
  | 0, _ => none
  | _ + 1, .empty => some (.ok [])
  | depth + 1, .cls c =>
    match Closure.closureWithin g.callSubclasses depth c with
    | none => none
    | some (.error e) => some (.error e)
    | some (.ok subs) => some (.ok ([c] ∪ subs))
  | _ + 1, .other _ => some (.error .attributeError)
  | depth + 1, .annotated a => gatherTypesWithin g depth a
  | depth + 1, .union args => gatherArgsWithin (gatherTypesWithin g depth) args
  | _ + 1, .generic origin _ => some (.error (.invalidMessageType origin))

section Ends

variable {g : ClassGraph}

mutual

/-- Enough calls end it, and more do not change the result. -/
theorem gatherTypes_ends (a : Annotation) :
    ∃ depth, ∀ n, depth ≤ n → gatherTypesWithin g n a = some (gatherTypes g a) := by
  match a with
  | .empty =>
    refine ⟨1, fun n hn => ?_⟩
    obtain ⟨n, rfl⟩ : ∃ k, n = k + 1 := ⟨n - 1, by omega⟩
    rfl
  | .cls c =>
    refine ⟨g.size + 2, fun n hn => ?_⟩
    obtain ⟨n, rfl⟩ : ∃ k, n = k + 1 := ⟨n - 1, by omega⟩
    rw [gatherTypesWithin, allSubclasses_ends (by omega), gatherTypes]
    cases allSubclasses g c <;> rfl
  | .other v =>
    refine ⟨1, fun n hn => ?_⟩
    obtain ⟨n, rfl⟩ : ∃ k, n = k + 1 := ⟨n - 1, by omega⟩
    rfl
  | .annotated a =>
    obtain ⟨depth, ha⟩ := gatherTypes_ends a
    refine ⟨depth + 1, fun n hn => ?_⟩
    obtain ⟨n, rfl⟩ : ∃ k, n = k + 1 := ⟨n - 1, by omega⟩
    rw [gatherTypesWithin, ha n (by omega), gatherTypes]
  | .union args =>
    obtain ⟨depth, hargs⟩ := gatherArgs_ends args
    refine ⟨depth + 1, fun n hn => ?_⟩
    obtain ⟨n, rfl⟩ : ∃ k, n = k + 1 := ⟨n - 1, by omega⟩
    rw [gatherTypesWithin, hargs n (by omega), gatherTypes]
  | .generic o v =>
    refine ⟨1, fun n hn => ?_⟩
    obtain ⟨n, rfl⟩ : ∃ k, n = k + 1 := ⟨n - 1, by omega⟩
    rfl

theorem gatherArgs_ends (args : List Annotation) :
    ∃ depth, ∀ n, depth ≤ n → gatherArgsWithin (gatherTypesWithin g n) args = some (gatherArgs g args) := by
  match args with
  | [] => exact ⟨0, fun n _ => rfl⟩
  | a :: args =>
    obtain ⟨d1, ha⟩ := gatherTypes_ends a
    obtain ⟨d2, hargs⟩ := gatherArgs_ends args
    refine ⟨max d1 d2, fun n hn => ?_⟩
    rw [gatherArgsWithin, ha n (by omega), hargs n (by omega), gatherArgs]
    cases gatherTypes g a with
    | error e => rfl
    | ok ts => cases gatherArgs g args <;> rfl

end

end Ends

/-! ### Generics -/

section Generics

open Annotation (isPlain isTyping generics leaves)

variable {g : ClassGraph}

mutual

theorem isPlain_iff {a : Annotation} : a.isPlain = true ↔ a.isTyping = true ∧ a.generics = [] := by
  match a with
  | .empty => simp [isPlain, isTyping, generics]
  | .cls _ => simp [isPlain, isTyping, generics]
  | .other _ => simp [isPlain, isTyping]
  | .annotated a =>
    unfold Annotation.isPlain Annotation.isTyping Annotation.generics
    exact isPlain_iff
  | .union args =>
    unfold Annotation.isPlain Annotation.isTyping Annotation.generics
    exact plainArgs_iff
  | .generic _ _ => simp [isPlain, generics]

theorem plainArgs_iff {args : List Annotation} :
    plainArgs args = true ↔ typingArgs args = true ∧ genericsArgs args = [] := by
  match args with
  | [] => simp [plainArgs, typingArgs, genericsArgs]
  | a :: args =>
    unfold plainArgs typingArgs genericsArgs
    rw [Bool.and_eq_true, Bool.and_eq_true, List.append_eq_nil_iff, isPlain_iff, plainArgs_iff]
    tauto

end

/-- Without generics it returns. -/
theorem gatherTypes_returns {a : Annotation} (ha : a.isTyping = true) (hm : NoMetaclass g a)
    (hg : a.generics = []) : ∃ l, gatherTypes g a = .ok l :=
  gatherTypes_ok_iff.2 ⟨isPlain_iff.2 ⟨ha, hg⟩, hm⟩

mutual

/-- It raises at the first generic. -/
theorem gatherTypes_raises {a : Annotation} (ha : a.isTyping = true) (hm : NoMetaclass g a) {o : Nat}
    {rest : List Nat} (hg : a.generics = o :: rest) : gatherTypes g a = .error (.invalidMessageType o) := by
  match a with
  | .empty => cases hg
  | .cls _ => cases hg
  | .other _ => cases hg
  | .annotated a => exact gatherTypes_raises (a := a) ha hm hg
  | .union args =>
    have ha' : typingArgs args = true := ha
    exact gatherArgs_raises ha' hm hg
  | .generic origin _ =>
    cases hg
    rfl

theorem gatherArgs_raises {args : List Annotation} (ha : typingArgs args = true)
    (hm : NoMetaclass g (.union args)) {o : Nat} {rest : List Nat} (hg : genericsArgs args = o :: rest) :
    gatherArgs g args = .error (.invalidMessageType o) := by
  match args with
  | [] => cases hg
  | a :: args =>
    unfold typingArgs at ha
    rw [Bool.and_eq_true] at ha
    have hma : NoMetaclass g a := fun c hc => hm c (List.mem_append_left _ hc)
    have hmargs : NoMetaclass g (.union args) := fun c hc => hm c (List.mem_append_right _ hc)
    unfold genericsArgs at hg
    rcases hcase : a.generics with _ | ⟨p, ps⟩
    · -- the first member returns, so the generic is in the others
      rw [hcase, List.nil_append] at hg
      obtain ⟨l, hl⟩ := gatherTypes_returns ha.1 hma hcase
      rw [gatherArgs, hl, gatherArgs_raises ha.2 hmargs hg]
    · rw [hcase, List.cons_append, List.cons.injEq] at hg
      obtain ⟨rfl, -⟩ := hg
      rw [gatherArgs, gatherTypes_raises ha.1 hma hcase]

end

theorem gatherTypes_raises_iff {a : Annotation} (ha : a.isTyping = true) (hm : NoMetaclass g a) :
    (∃ o, gatherTypes g a = .error (.invalidMessageType o)) ↔ a.generics ≠ [] := by
  constructor
  · rintro ⟨o, ho⟩ hg
    obtain ⟨l, hl⟩ := gatherTypes_returns ha hm hg
    rw [hl] at ho
    cases ho
  · intro hg
    obtain ⟨o, rest, hcons⟩ := List.exists_cons_of_ne_nil hg
    exact ⟨o, gatherTypes_raises ha hm hcons⟩

/-- Annotations with the same set of leaves: the same result. -/
theorem sameResult_of_leaves {a b : Annotation} (ha : a.isTyping = true) (hb : b.isTyping = true)
    (hm : NoMetaclass g a) (hc : ∀ c, c ∈ a.leaves ↔ c ∈ b.leaves) (hg : ∀ o, o ∈ a.generics ↔ o ∈ b.generics) :
    SameResult (gatherTypes g a) (gatherTypes g b) := by
  have hmb : NoMetaclass g b := fun c h => hm c ((hc c).2 h)
  rcases hcase : a.generics with _ | ⟨o, rest⟩
  · have hnil : b.generics = [] := by
      rw [List.eq_nil_iff_forall_not_mem]
      intro o ho
      rw [← hg, hcase] at ho
      cases ho
    obtain ⟨l, hl⟩ := gatherTypes_returns ha hm hcase
    obtain ⟨l', hl'⟩ := gatherTypes_returns hb hmb hnil
    rw [hl, hl']
    refine .returned fun d => ?_
    rw [mem_gatherTypes hl, mem_gatherTypes hl']
    simp only [hc]
  · have ho : o ∈ b.generics := (hg o).1 (by rw [hcase]; exact List.mem_cons_self)
    obtain ⟨o', rest', hcons⟩ := List.exists_cons_of_ne_nil (List.ne_nil_of_mem ho)
    rw [gatherTypes_raises ha hm hcase, gatherTypes_raises hb hmb hcons]
    exact .raised o o'

/-! ### More members in a union -/

theorem leavesArgs_append (as bs : List Annotation) : leavesArgs (as ++ bs) = leavesArgs as ++ leavesArgs bs := by
  induction as with
  | nil => simp [leavesArgs]
  | cons a as ih => simp only [List.cons_append, leavesArgs, ih, List.append_assoc]

theorem genericsArgs_append (as bs : List Annotation) :
    genericsArgs (as ++ bs) = genericsArgs as ++ genericsArgs bs := by
  induction as with
  | nil => simp [genericsArgs]
  | cons a as ih => simp only [List.cons_append, genericsArgs, ih, List.append_assoc]

theorem typingArgs_append (as bs : List Annotation) :
    typingArgs (as ++ bs) = (typingArgs as && typingArgs bs) := by
  induction as with
  | nil => simp [typingArgs]
  | cons a as ih => simp only [List.cons_append, typingArgs, ih, Bool.and_assoc]

/-- A subclass of a class in the union may be added to it. -/
theorem sameResult_insert {as bs : List Annotation} {c d : Cls} (ht : Annotation.isTyping (.union (as ++ bs)) = true)
    (hm : NoMetaclass g (.union (as ++ bs))) (hc : c ∈ Annotation.leaves (.union (as ++ bs))) (hd : g.Sub d c) :
    SameResult (gatherTypes g (.union (as ++ .cls d :: bs))) (gatherTypes g (.union (as ++ bs))) := by
  have hleaves : ∀ x, x ∈ Annotation.leaves (.union (as ++ .cls d :: bs)) ↔
      x = d ∨ x ∈ Annotation.leaves (.union (as ++ bs)) := by
    intro x
    simp only [leaves, leavesArgs, leavesArgs_append, List.mem_append, List.mem_singleton]
    tauto
  have hgen : Annotation.generics (.union (as ++ .cls d :: bs)) = Annotation.generics (.union (as ++ bs)) := by
    simp only [generics, genericsArgs_append, genericsArgs, List.nil_append]
  have ht' : Annotation.isTyping (.union (as ++ .cls d :: bs)) = true := by
    simpa [isTyping, typingArgs_append, typingArgs] using ht
  have hm' : NoMetaclass g (.union (as ++ .cls d :: bs)) := by
    intro x hx
    rcases (hleaves x).1 hx with rfl | hx
    · exact fun y hy => hm c hc y (hy.trans hd)
    · exact hm x hx
  rcases hcase : Annotation.generics (.union (as ++ bs)) with _ | ⟨o, rest⟩
  · obtain ⟨l, hl⟩ := gatherTypes_returns ht' hm' (hgen.trans hcase)
    obtain ⟨l', hl'⟩ := gatherTypes_returns ht hm hcase
    rw [hl, hl']
    refine .returned fun y => ?_
    rw [mem_gatherTypes hl, mem_gatherTypes hl']
    constructor
    · rintro ⟨x, hx, hy⟩
      rcases (hleaves x).1 hx with rfl | hx
      · exact ⟨c, hc, hy.trans hd⟩
      · exact ⟨x, hx, hy⟩
    · rintro ⟨x, hx, hy⟩
      exact ⟨x, (hleaves x).2 (Or.inr hx), hy⟩
  · rw [gatherTypes_raises ht' hm' (hgen.trans hcase), gatherTypes_raises ht hm hcase]
    exact .raised o o

end Generics

/-! ### The whole function -/

/-- It ends; it raises `InvalidMessageTypeError` exactly at a generic; otherwise it returns the subclasses of the
classes named; only the set of leaves matters; a subclass of a class in a union adds nothing. -/
theorem gatherTypes_spec (g : ClassGraph) (a : Annotation) (ha : a.isTyping = true) (hm : NoMetaclass g a) :
    (∃ depth, ∀ n, depth ≤ n → gatherTypesWithin g n a = some (gatherTypes g a)) ∧
    ((∃ o, gatherTypes g a = .error (.invalidMessageType o)) ↔ a.generics ≠ []) ∧
    (a.generics = [] → ∃ l, gatherTypes g a = .ok l ∧ l.Nodup ∧ ∀ d, d ∈ l ↔ ∃ c ∈ a.leaves, g.Sub d c) ∧
    (∀ b : Annotation, b.isTyping = true → (∀ c, c ∈ a.leaves ↔ c ∈ b.leaves) →
      (∀ o, o ∈ a.generics ↔ o ∈ b.generics) → SameResult (gatherTypes g a) (gatherTypes g b)) ∧
    ∀ as bs c d, a = .union (as ++ bs) → c ∈ a.leaves → g.Sub d c →
      SameResult (gatherTypes g (.union (as ++ .cls d :: bs))) (gatherTypes g a) := by
  refine ⟨gatherTypes_ends a, gatherTypes_raises_iff ha hm, fun hg => ?_,
    fun b hb hc hg => sameResult_of_leaves ha hb hm hc hg, ?_⟩
  · obtain ⟨l, hl⟩ := gatherTypes_returns ha hm hg
    exact ⟨l, hl, gatherTypes_nodup hl, fun d => mem_gatherTypes hl⟩
  · rintro as bs c d rfl hc hd
    exact sameResult_insert ha hm hc hd

/-! ### A diamond of commands -/

namespace UserCommands

/-- `UserCommand`, two classes derived from it and a class derived from both, numbers 4 to 7. -/
def diamond : ClassGraph :=
  (((ClassGraph.builtin.define [Cls.object]).define [4]).define [4]).define [5, 6]

/-- `Annotated[CreateUser, …] | UpdateUser` -/
def command : Annotation := .union [.annotated (.cls 5), .cls 6]

example : gatherTypes diamond command = .ok [5, 6, 7] := by decide

/-- The class derived from both may be named as well. -/
theorem diamond_gathered :
    (∃ l, gatherTypes diamond command = .ok l ∧ l.Nodup ∧ ∀ d, d ∈ l ↔ ∃ c ∈ command.leaves, diamond.Sub d c) ∧
      SameResult (gatherTypes diamond (.union ([.annotated (.cls 5), .cls 6] ++ .cls 7 :: [])))
        (gatherTypes diamond command) := by
  have hm : NoMetaclass diamond command := (gatherTypes_ok_iff.1 ⟨[5, 6, 7], by decide⟩).2
  have hsub : diamond.Sub 7 5 := diamond.issubclass_iff.1 (by decide)
  obtain ⟨-, -, hret, -, hins⟩ := gatherTypes_spec diamond command rfl hm
  exact ⟨hret rfl, hins [.annotated (.cls 5), .cls 6] [] 5 7 rfl (by decide) hsub⟩

end UserCommands

end Anywise
