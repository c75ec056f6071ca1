import Anywise.Delivery
import Anywise.Listeners
import Anywise.Numbering

/-!
# Global guards

A guard for `Any` or `object` is meant to run once for every command, before the guards of its type.  Each element of
a guard list comes from one registration (`Origin`), so one can ask how often, and where, a registration occurs there.
A guard for `object` cannot be registered, as `type` is among the subclasses of `object`; a guard for `Any` occurs
once exactly when its registry is included once after it and the type is not a subclass of `Any`
(`global_guard_once_iff`).
-/

namespace Anywise

/-! ### Where the elements of a guard list come from -/

/-- The guard registration at a place in a journal. -/
def guardAt (J : List Entry) (i : Nat) : Option GuardReg :=
  match J[i]? with
  | some (.guard e) => some e
  | _ => none

/-- The places of the guard registrations of a registry. -/
def positionsIn (r : Nat) (J : List Entry) : List Nat :=
  (List.range J.length).filter fun i => (guardAt J i).any fun e => decide (e.registry = r)

/-- The places of the guard registrations an `Anywise` holds, once for each include that took them over. -/
def includedPositions (J : List Entry) : List Nat := (includesFrom [] J).flatMap fun i => positionsIn i.2 i.1

/-- Where an element of a guard list comes from: the place of the registration, and the target it is filed under. -/
structure Origin where
  position : Nat
  target : Cls

/-- The registrations at `ps` that stood for `T`. -/
def originsFor (J : List Entry) (T : Cls) (ps : List Nat) : List Origin :=
  (ps.filter fun i => (guardAt J i).any fun e => decide (T ∈ e.targets)).map fun i => ⟨i, T⟩

/-- The origins of the guard list of a `T`. -/
def origins (J : List Entry) (T : Cls) : List Origin :=
  originsFor J Cls.any (includedPositions J) ++
    if HandlerManager.isGlobal T then [] else originsFor J T (includedPositions J)

/-- What the registration appended to the list of the target. -/
def Origin.guardMeta (J : List Entry) (o : Origin) : Option GuardMeta :=
  (guardAt J o.position).map fun e => e.metaOf o.target

section Origins

variable {J K : List Entry} {r i : Nat} {e : GuardReg} {T : Cls}

theorem guardAt_eq_some : guardAt J i = some e ↔ J[i]? = some (.guard e) := by
  unfold guardAt
  split
  · rename_i e' he
    rw [he]
    simp
  · rename_i hno
    constructor
    · intro h
      cases h
    · intro h
      exact absurd h (hno e)

theorem guardAt_append_left (hi : i < J.length) : guardAt (J ++ K) i = guardAt J i := by
  unfold guardAt
  rw [List.getElem?_append_left hi]

theorem lt_of_mem_positionsIn (h : i ∈ positionsIn r J) : i < J.length :=
  List.mem_range.1 (List.mem_of_mem_filter h)

/-- The next entry adds its own place at most. -/
private theorem positionsIn_snoc (r : Nat) (J : List Entry) (e : Entry) :
    positionsIn r (J ++ [e]) =
      positionsIn r J ++ [J.length].filter fun i => (guardAt (J ++ [e]) i).any fun e => decide (e.registry = r) := by
  unfold positionsIn
  rw [List.length_append, List.length_singleton, List.range_succ, List.filter_append]
  congr 1
  refine List.filter_congr fun i hi => ?_
  rw [guardAt_append_left (List.mem_range.1 hi)]

/-- The entries at the places of a registry are its guard registrations. -/
theorem filterMap_positionsIn (r : Nat) (J : List Entry) : (positionsIn r J).filterMap (guardAt J) = guardsIn r J := by
  induction J using List.reverseRecOn with
  | nil => rfl
  | append_singleton J e ih =>
    have hleft : (positionsIn r J).filterMap (guardAt (J ++ [e])) = guardsIn r J := by
      rw [← ih]
      exact List.filterMap_congr fun i hi => guardAt_append_left (lt_of_mem_positionsIn hi)
    rw [positionsIn_snoc, List.filterMap_append, hleft, guardsIn_append]
    congr 1
    cases e with
    | handler r' g ord h => simp [guardAt, guardsIn]
    | incl r' => simp [guardAt, guardsIn]
    | guard e =>
      by_cases hr : e.registry = r <;> simp [guardAt, guardsIn, hr]

private theorem includedFrom_eq (seen J : List Entry) :
    includedFrom seen J = (includesFrom seen J).flatMap fun i => guardsIn i.2 i.1 := by
  induction J generalizing seen with
  | nil => rfl
  | cons e J ih =>
    cases e with
    | incl r => rw [includedFrom, includesFrom, List.flatMap_cons, ih]
    | handler r g ord h => exact ih _
    | guard e => exact ih _

/-- Before an include stands a part of the journal. -/
private theorem prefix_of_mem_includesFrom {seen J : List Entry} {i : List Entry × Nat} (h : i ∈ includesFrom seen J) :
    i.1 <+: seen ++ J := by
  induction J generalizing seen with
  | nil => cases h
  | cons e J ih =>
    have hrest : ∀ x : Entry, i ∈ includesFrom (seen ++ [x]) J → i.1 <+: seen ++ x :: J := by
      intro x hx
      simpa using ih hx
    cases e with
    | handler r g ord t => exact hrest _ h
    | guard e => exact hrest _ h
    | incl r =>
      rcases List.mem_cons.1 h with rfl | h
      · exact List.prefix_append _ _
      · exact hrest _ h

/-- The entries at the included places are the included registrations. -/
theorem filterMap_includedPositions (J : List Entry) :
    (includedPositions J).filterMap (guardAt J) = includedGuards J := by
  rw [includedPositions, includedGuards, includedFrom_eq, List.filterMap_flatMap]
  refine List.flatMap_congr fun i hi => ?_
  obtain ⟨K, hK⟩ := prefix_of_mem_includesFrom hi
  rw [← filterMap_positionsIn]
  refine List.filterMap_congr fun p hp => ?_
  rw [List.nil_append] at hK
  rw [← hK, guardAt_append_left (lt_of_mem_positionsIn hp)]

private theorem filterMap_originsFor (J : List Entry) (T : Cls) (ps : List Nat) :
    (originsFor J T ps).filterMap (Origin.guardMeta J) = guardsFor T (ps.filterMap (guardAt J)) := by
  induction ps with
  | nil => rfl
  | cons i ps ih =>
    unfold originsFor guardsFor at ih ⊢
    cases hi : guardAt J i with
    | none => simpa [hi] using ih
    | some e =>
      by_cases hT : T ∈ e.targets
      · simpa [hi, hT, Origin.guardMeta] using ih
      · simpa [hi, hT] using ih

/-- The guard list of a type, element by element from its origins. -/
theorem Journaled.commandGuards_origins {bases : Nat → Option Cls × Option Cls} {w : World} (h : Journaled bases w J)
    (T : Cls) : w.commandGuards T = (origins J T).filterMap (Origin.guardMeta J) := by
  rw [World.commandGuards, HandlerManager.commandGuards, h.globals, h.guards, origins, List.filterMap_append,
    filterMap_originsFor, filterMap_includedPositions]
  congr 1
  split
  · rfl
  · rw [filterMap_originsFor, filterMap_includedPositions]

/-! ### How often a registration occurs -/

private theorem includesFrom_append (seen J K : List Entry) :
    includesFrom seen (J ++ K) = includesFrom seen J ++ includesFrom (seen ++ J) K := by
  induction J generalizing seen with
  | nil => simp [includesFrom]
  | cons e J ih => cases e <;> simp [includesFrom, ih]

private theorem count_positionsIn {p : Nat} (h : guardAt J p = some e) (r : Nat) :
    (positionsIn r J).count p = if e.registry = r then 1 else 0 := by
  have hlt : p < J.length := (List.getElem?_eq_some_iff.1 (guardAt_eq_some.1 h)).1
  have hnodup : (positionsIn r J).Nodup := List.nodup_range.filter _
  by_cases hr : e.registry = r
  · have hmem : p ∈ positionsIn r J := List.mem_filter.2 ⟨List.mem_range.2 hlt, by simp [h, hr]⟩
    rw [if_pos hr, List.count_eq_one_of_mem hnodup hmem]
  · rw [if_neg hr, List.count_eq_zero]
    intro hmem
    have := (List.mem_filter.1 hmem).2
    simp [h, hr] at this

/-- Each include of its registry takes over a registration that stands before all of them. -/
private theorem count_includesFrom {seen : List Entry} {p : Nat} (h : guardAt seen p = some e) (J : List Entry) :
    ((includesFrom seen J).flatMap fun i => positionsIn i.2 i.1).count p = (includeOrder J).count e.registry := by
  induction J generalizing seen with
  | nil => rfl
  | cons x J ih =>
    have hlt : p < seen.length := (List.getElem?_eq_some_iff.1 (guardAt_eq_some.1 h)).1
    have hseen : guardAt (seen ++ [x]) p = some e := by rw [guardAt_append_left hlt, h]
    have hrest := ih hseen
    cases x with
    | handler r g ord t => exact hrest
    | guard e' => exact hrest
    | incl r =>
      have horder : includeOrder (.incl r :: J) = r :: includeOrder J := rfl
      rw [includesFrom, List.flatMap_cons, List.count_append, hrest, count_positionsIn h, horder, List.count_cons]
      by_cases hr : e.registry = r
      · simp [hr, Nat.add_comm]
      · simp [hr, Ne.symm hr]

/-- A registration is taken over by the includes of its registry after it. -/
theorem count_includedPositions (J₁ J₂ : List Entry) (e : GuardReg) :
    (includedPositions (J₁ ++ .guard e :: J₂)).count J₁.length = (includeOrder J₂).count e.registry := by
  have hbefore : ((includesFrom [] J₁).flatMap fun i => positionsIn i.2 i.1).count J₁.length = 0 := by
    rw [List.count_eq_zero]
    intro hmem
    obtain ⟨i, hi, hp⟩ := List.mem_flatMap.1 hmem
    have hlt := lt_of_mem_positionsIn hp
    have hle := (prefix_of_mem_includesFrom hi).length_le
    rw [List.nil_append] at hle
    omega
  have hat : guardAt (J₁ ++ [.guard e]) J₁.length = some e := by
    rw [guardAt_eq_some]
    simp
  rw [includedPositions, includesFrom_append, List.flatMap_append, List.count_append, hbefore, Nat.zero_add,
    List.nil_append]
  exact count_includesFrom hat J₂

private theorem count_originsFor {p : Nat} (h : guardAt J p = some e) (T : Cls) (ps : List Nat) :
    ((originsFor J T ps).map Origin.position).count p = if T ∈ e.targets then ps.count p else 0 := by
  have hmap : (originsFor J T ps).map Origin.position =
      ps.filter fun i => (guardAt J i).any fun e => decide (T ∈ e.targets) := by
    rw [originsFor, List.map_map]
    exact List.map_id _
  rw [hmap]
  by_cases hT : T ∈ e.targets
  · rw [if_pos hT, List.count_filter (by simp [h, hT])]
  · rw [if_neg hT, List.count_eq_zero]
    intro hmem
    have := (List.mem_filter.1 hmem).2
    simp [h, hT] at this

/-- One element comes from place `p`, and before it there are global guards only. -/
def OnceAhead (p : Nat) (L : List Origin) : Prop :=
  ∃ L₁ t L₂, L = L₁ ++ ⟨p, t⟩ :: L₂ ∧ (∀ o ∈ L₁, o.position ≠ p ∧ HandlerManager.isGlobal o.target = true) ∧
    ∀ o ∈ L₂, o.position ≠ p

private theorem OnceAhead.count {p : Nat} {L : List Origin} (h : OnceAhead p L) :
    (L.map Origin.position).count p = 1 := by
  obtain ⟨L₁, t, L₂, rfl, h₁, h₂⟩ := h
  have hzero : ∀ l : List Origin, (∀ o ∈ l, o.position ≠ p) → (l.map Origin.position).count p = 0 := by
    intro l hl
    rw [List.count_eq_zero]
    intro hmem
    obtain ⟨o, ho, rfl⟩ := List.mem_map.1 hmem
    exact hl o ho rfl
  rw [List.map_append, List.map_cons, List.count_append, List.count_cons_self, hzero L₁ fun o ho => (h₁ o ho).1,
    hzero L₂ h₂]

private theorem onceAhead_append {p : Nat} {G S : List Origin} (hG : (G.map Origin.position).count p = 1)
    (hglobal : ∀ o ∈ G, HandlerManager.isGlobal o.target = true) (hS : (S.map Origin.position).count p = 0) :
    OnceAhead p (G ++ S) := by
  have hmem : p ∈ G.map Origin.position := List.count_pos_iff.1 (by omega)
  obtain ⟨o, ho, rfl⟩ := List.mem_map.1 hmem
  obtain ⟨G₁, G₂, rfl⟩ := List.append_of_mem ho
  rw [List.map_append, List.map_cons, List.count_append, List.count_cons_self] at hG
  have hne : ∀ l : List Origin, (l.map Origin.position).count o.position = 0 → ∀ x ∈ l, x.position ≠ o.position :=
    fun l hl x hx heq => List.count_eq_zero.1 hl (heq ▸ List.mem_map_of_mem hx)
  refine ⟨G₁, o.target, G₂ ++ S, by simp, fun x hx => ⟨?_, ?_⟩, fun x hx => ?_⟩
  · exact hne G₁ (by omega) x hx
  · exact hglobal x (List.mem_append_left _ hx)
  · rcases List.mem_append.1 hx with hx | hx
    · exact hne G₂ (by omega) x hx
    · exact hne S hS x hx

/-- A registration for `Any` occurs once and first exactly when one include takes it over and `T` is not one of the
other types it stood for. -/
theorem onceAhead_origins_iff {J₁ J₂ : List Entry} {T : Cls} (hany : Cls.any ∈ e.targets) :
    OnceAhead J₁.length (origins (J₁ ++ .guard e :: J₂) T) ↔
      (includeOrder J₂).count e.registry = 1 ∧ (HandlerManager.isGlobal T = true ∨ T ∉ e.targets) := by
  have hat : guardAt (J₁ ++ .guard e :: J₂) J₁.length = some e := by
    rw [guardAt_eq_some]
    simp
  have hglobals := count_originsFor hat Cls.any (includedPositions (J₁ ++ .guard e :: J₂))
  rw [if_pos hany, count_includedPositions] at hglobals
  have hown := count_originsFor hat T (includedPositions (J₁ ++ .guard e :: J₂))
  rw [count_includedPositions] at hown
  have hisGlobal : ∀ o ∈ originsFor (J₁ ++ .guard e :: J₂) Cls.any (includedPositions (J₁ ++ .guard e :: J₂)),
      HandlerManager.isGlobal o.target = true := by
    intro o ho
    obtain ⟨i, -, rfl⟩ := List.mem_map.1 ho
    rfl
  unfold origins
  constructor
  · intro h
    have hcount := h.count
    rw [List.map_append, List.count_append, hglobals] at hcount
    by_cases hT : HandlerManager.isGlobal T = true
    · rw [if_pos hT, List.map_nil, List.count_nil] at hcount
      exact ⟨hcount, Or.inl hT⟩
    · rw [if_neg hT, hown] at hcount
      by_cases hmem : T ∈ e.targets
      · -- then it occurs as often again
        rw [if_pos hmem] at hcount
        omega
      · rw [if_neg hmem] at hcount
        exact ⟨hcount, Or.inr hmem⟩
  · rintro ⟨hone, hT⟩
    refine onceAhead_append (by rw [hglobals, hone]) hisGlobal ?_
    by_cases hg : HandlerManager.isGlobal T = true
    · rw [if_pos hg, List.map_nil, List.count_nil]
    · rw [if_neg hg, hown, if_neg (hT.resolve_left hg)]

end Origins

/-! ### The registration of a guard -/

/-- The parameters of `__call__` of a guard; `calls` says what they are in the class of a guard object. -/
def MessageRegistry.GuardArg.call (calls : Cls → List Param) : MessageRegistry.GuardArg → List Param
  | .cls c => c.call
  | .inst _ c => calls c

/-- The registry that is given a guard, and the annotation of the command parameter of the guard. -/
def WorldAct.guardTarget (calls : Cls → List Param) : WorldAct → Option (Nat × Annotation)
  | .preHandle r _ func => guardAnnotation func |>.map fun a => (r, a)
  | .postHandle r _ func => guardAnnotation func |>.map fun a => (r, a)
  | .addGuard r _ guard => ((guard.call calls).drop 1).head?.map fun p => (r, p.annotation)
  | _ => none

/-- The guard is given as an object of a guard class. -/
def WorldAct.givesInstance : WorldAct → Bool
  | .addGuard _ _ (.inst _ _) => true
  | _ => false

/-- The action includes registry `r`. -/
def SysAct.includesRegistry (r : Nat) : SysAct → Bool
  | .world (.incl r') => r' == r
  | _ => false

section Registration

variable {w : World} {act : WorldAct} {calls : Cls → List Param} {r : Nat} {a : Annotation}

/-- All ways to give a function or a class come to one registration of its annotation. -/
private theorem guard_registration (w : World) (h : act.guardTarget calls = some (r, a))
    (hi : act.givesInstance = false) :
    ∃ ord func ref made ref', guardAnnotation func = some a ∧
      (w.exec act).2 = ((w.registries r).attempt
        (MessageRegistry.guardResult w.graph ord (w.registries r) func ref made)).2 ∧
      w.entry act = guardEntry r w.graph func ref' := by
  cases act with
  | define bs => cases h
  | register r ord handler => cases h
  | incl r => cases h
  | readGuards T => cases h
  | preHandle r' ord func =>
    obtain ⟨a', ha, heq⟩ := Option.map_eq_some_iff.1 h
    cases heq
    exact ⟨ord, func, _, _, _, ha, rfl, rfl⟩
  | postHandle r' ord func =>
    obtain ⟨a', ha, heq⟩ := Option.map_eq_some_iff.1 h
    cases heq
    exact ⟨ord, func, _, _, _, ha, rfl, rfl⟩
  | addGuard r' ord guard =>
    cases guard with
    | inst i c => cases hi
    | cls c =>
      obtain ⟨p, hp, heq⟩ := Option.map_eq_some_iff.1 h
      cases heq
      refine ⟨ord, .cls c, _, _, _, ?_, rfl, rfl⟩
      show Option.map Param.annotation (c.call.drop 1).head? = _
      rw [show (c.call.drop 1).head? = some p from hp]
      rfl

/-- The registration of a guard function or a guard class raises what `gather_types` raises. -/
theorem exec_guard (w : World) (h : act.guardTarget calls = some (r, a)) (hi : act.givesInstance = false) :
    (w.exec act).2 = (gatherTypes w.graph a).map fun _ => () := by
  obtain ⟨ord, func, ref, made, -, ha, hexec, -⟩ := guard_registration w h hi
  have ht : (w.registries r).getGuardtarget w.graph func = gatherTypes w.graph a := by
    rw [MessageRegistry.getGuardtarget_eq, ha]
  rw [hexec, MessageRegistry.guardResult, ht]
  cases gatherTypes w.graph a <;> rfl

/-- One that succeeds is entered into the journal, with what was gathered. -/
theorem entry_guard (h : act.guardTarget calls = some (r, a)) (hi : act.givesInstance = false) {targets : List Cls}
    (ht : gatherTypes w.graph a = .ok targets) :
    ∃ e, w.entry act = some (.guard e) ∧ e.registry = r ∧ e.targets = targets := by
  obtain ⟨-, func, -, -, ref', ha, -, hentry⟩ := guard_registration w h hi
  have hok : (w.registries r).getGuardtarget w.graph func = .ok targets := by
    rw [MessageRegistry.getGuardtarget_eq, ha]
    exact ht
  obtain ⟨e, he, hr, htargets, -⟩ := guardEntry_of_ok r ref' hok
  exact ⟨e, hentry.trans he, hr, htargets⟩

/-- A guard object is rejected: `get_guardtarget` knows functions and classes. -/
theorem exec_instance (hi : act.givesInstance = true) : (w.exec act).2 ≠ .ok () := by
  cases act with
  | addGuard r ord guard =>
    cases guard with
    | cls c => cases hi
    | inst i c =>
      intro hok
      cases hok
  | _ => cases hi

end Registration

/-- The targets of a guard for `Any`; for `object` there are none. -/
theorem gathered_global {g : ClassGraph} {G : Cls} (hG : G = Cls.any ∨ G = Cls.object) {targets : List Cls}
    (h : gatherTypes g (.cls G) = .ok targets) : G = Cls.any ∧ ∀ T, T ∈ targets ↔ g.Sub T Cls.any := by
  have hmem : ∀ T, T ∈ targets ↔ g.Sub T G := by
    intro T
    rw [mem_gatherTypes h, Annotation.leaves]
    simp
  rcases hG with rfl | rfl
  · exact ⟨rfl, hmem⟩
  · exact absurd ((hmem Cls.object).2 .refl) (object_notMem_gatherTypes h)

theorem gather_any_ok_iff {g : ClassGraph} :
    (∃ targets, gatherTypes g (.cls Cls.any) = .ok targets) ↔ ∀ d, g.Sub d Cls.any → ¬ g.Sub d Cls.type := by
  rw [← allSubclasses_ok_iff]
  unfold gatherTypes
  cases allSubclasses g Cls.any <;> simp

/-- `Any` is global, and a strict subclass of it is not. -/
theorem isGlobal_or_notSub_any {g : ClassGraph} {T : Cls} :
    (HandlerManager.isGlobal T = true ∨ ¬ g.Sub T Cls.any) ↔ ¬ Relation.TransGen g.DirectSub T Cls.any := by
  have hsub : g.Sub T Cls.any ↔ Cls.any = T ∨ Relation.TransGen g.DirectSub T Cls.any :=
    Relation.reflTransGen_iff_eq_or_transGen
  have hstrict : Relation.TransGen g.DirectSub T Cls.any → Cls.any < T := by
    intro h
    obtain ⟨b, hb, hrest⟩ := Relation.TransGen.head'_iff.1 h
    exact (g.le_of_sub hrest).trans_lt (g.lt_of_directSub hb).1
  constructor
  · rintro (hT | hT) h
    · have hlt := hstrict h
      rcases (by simpa [HandlerManager.isGlobal] using hT : T = Cls.any ∨ T = Cls.object) with rfl | rfl
      · exact Nat.lt_irrefl _ hlt
      · exact Nat.not_lt_zero _ hlt
    · exact hT (hsub.2 (Or.inr h))
  · intro h
    by_cases hT : Cls.any = T
    · subst hT
      exact Or.inl rfl
    · exact Or.inr fun hs => (hsub.1 hs).elim hT h

/-! ### Runs -/

namespace System

/-- The includes of a journal are the include actions of the run. -/
theorem count_includeOrder_journal {s s' : System} {acts : List SysAct} (h : Run.run step s acts = some s') (r : Nat) :
    (includeOrder (s.journal acts)).count r = acts.countP (SysAct.includesRegistry r) := by
  induction acts generalizing s with
  | nil => rfl
  | cons a acts ih =>
    obtain ⟨u, hu, h⟩ := Run.run_cons.1 h
    have hsplit : includeOrder (s.journal (a :: acts)) = includeOrder (s.entries a) ++ includeOrder (u.journal acts) := by
      rw [journal_cons hu]
      exact List.filterMap_append
    have hguard : ∀ r' g func ref, includeOrder (guardEntry r' g func ref).toList = [] := by
      intro r' g func ref
      refine List.filterMap_eq_nil_iff.2 fun e he => ?_
      obtain ⟨e', rfl⟩ := guardEntry_isGuard r' g func ref e he
      rfl
    have hone : (includeOrder (s.entries a)).count r = if SysAct.includesRegistry r a then 1 else 0 := by
      cases a with
      | world b =>
        cases b with
        | incl r' => simp [entries, World.entry, includeOrder, SysAct.includesRegistry, List.count_singleton]
        | preHandle r' ord f => simp [entries, World.entry, hguard, SysAct.includesRegistry]
        | postHandle r' ord f => simp [entries, World.entry, hguard, SysAct.includesRegistry]
        | addGuard r' ord guard => simp [entries, World.entry, hguard, SysAct.includesRegistry]
        | define bs => rfl
        | register r' ord t => rfl
        | readGuards T => rfl
      | openScope n => rfl
      | closeScope n => rfl
      | start method msg context scope => rfl
      | call c b => rfl
    rw [hsplit, List.count_append, hone, ih h, List.countP_cons, Nat.add_comm]

/-- Each element of the list that a send of a `T` links has its origin.  The registration of a guard whose command is
annotated with `Any` or `object` succeeds, and one element of the list comes from it and stands before every guard
that is not global, exactly when the annotation is `Any`, no metaclass derives from `Any`, the guard is not given as
an object, its registry is included once after it, and `T` is not derived from `Any`. -/
theorem global_guard_once_iff (bases : Nat → Option Cls × Option Cls) (calls : Cls → List Param)
    (acts₁ acts₂ : List SysAct) (act : WorldAct) (s s' : System) (r : Nat) (G T : Cls)
    (hrun₁ : Run.run step (new bases) acts₁ = some s) (hrun₂ : Run.run step s (.world act :: acts₂) = some s')
    (hG : G = Cls.any ∨ G = Cls.object) (hact : act.guardTarget calls = some (r, .cls G)) :
    s'.world.commandGuards T =
      (origins ((new bases).journal (acts₁ ++ .world act :: acts₂)) T).filterMap
        (Origin.guardMeta ((new bases).journal (acts₁ ++ .world act :: acts₂))) ∧
    ((s.world.exec act).2 = .ok () ∧
        OnceAhead ((new bases).journal acts₁).length
          (origins ((new bases).journal (acts₁ ++ .world act :: acts₂)) T) ↔
      G = Cls.any ∧ (∀ d, s.world.graph.Sub d Cls.any → ¬ s.world.graph.Sub d Cls.type) ∧
        act.givesInstance = false ∧ acts₂.countP (SysAct.includesRegistry r) = 1 ∧
        ¬ Relation.TransGen s.world.graph.DirectSub T Cls.any) := by
  have hrun : Run.run step (new bases) (acts₁ ++ .world act :: acts₂) = some s' := Run.run_append.2 ⟨s, hrun₁, hrun₂⟩
  refine ⟨(journaled_of_run hrun).commandGuards_origins T, ?_⟩
  obtain ⟨u, hu, hrest⟩ := Run.run_cons.1 hrun₂
  have hcount := count_includeOrder_journal hrest r
  have hJ : (new bases).journal (acts₁ ++ .world act :: acts₂) =
      (new bases).journal acts₁ ++ ((s.world.entry act).toList ++ u.journal acts₂) := by
    rw [journal_append hrun₁, journal_cons hu]
    rfl
  -- what a registration that gathers its targets comes to
  have hgathered : ∀ targets, act.givesInstance = false → gatherTypes s.world.graph (.cls G) = .ok targets →
      (OnceAhead ((new bases).journal acts₁).length
          (origins ((new bases).journal (acts₁ ++ .world act :: acts₂)) T) ↔
        acts₂.countP (SysAct.includesRegistry r) = 1 ∧ ¬ Relation.TransGen s.world.graph.DirectSub T Cls.any) := by
    intro targets hi ht
    obtain ⟨rfl, hmem⟩ := gathered_global hG ht
    obtain ⟨e, he, hr, htargets⟩ := entry_guard hact hi ht
    have hany : Cls.any ∈ e.targets := by
      rw [htargets, hmem]
      exact .refl
    rw [hJ, he, Option.toList_some, List.singleton_append, onceAhead_origins_iff hany, hr, hcount, htargets, hmem,
      isGlobal_or_notSub_any]
  constructor
  · rintro ⟨hok, honce⟩
    have hi : act.givesInstance = false := by
      cases hi : act.givesInstance with
      | false => rfl
      | true => exact absurd hok (exec_instance hi)
    rw [exec_guard s.world hact hi] at hok
    cases ht : gatherTypes s.world.graph (.cls G) with
    | error e =>
      rw [ht] at hok
      cases hok
    | ok targets =>
      obtain ⟨rfl, -⟩ := gathered_global hG ht
      obtain ⟨hone, hT⟩ := (hgathered targets hi ht).1 honce
      exact ⟨rfl, gather_any_ok_iff.1 ⟨targets, ht⟩, hi, hone, hT⟩
  · rintro ⟨rfl, hmeta, hi, hone, hT⟩
    obtain ⟨targets, ht⟩ := gather_any_ok_iff.2 hmeta
    refine ⟨?_, (hgathered targets hi ht).2 ⟨hone, hT⟩⟩
    rw [exec_guard s.world hact hi, ht]
    rfl

/-! ### A guard for `object` and one for `Any` -/

open UserApp

/-- The registration of a guard for `object` raises, and no guard is linked for `CreateUser`. -/
theorem object_guard_missing :
    ∃ s s', Run.run step (new bases) setup = some s ∧
      Run.run step s [.world (.preHandle 0 .listed (guardFunc 3 Cls.object)), .world (.incl 0)] = some s' ∧
      (s.world.exec (.preHandle 0 .listed (guardFunc 3 Cls.object))).2 = .error .typeError ∧
      (s'.world.managers.handlerManager.handlerMetas.get? CreateUser).isSome ∧
      s'.world.commandGuards CreateUser = [] := by
  have hrun : ((Run.run step (new bases) setup).bind fun s =>
      (Run.run step s [.world (.preHandle 0 .listed (guardFunc 3 Cls.object)), .world (.incl 0)]).map fun s' =>
        ((s.world.exec (.preHandle 0 .listed (guardFunc 3 Cls.object))).2.toOption,
          (s'.world.managers.handlerManager.handlerMetas.get? CreateUser).isSome,
          s'.world.commandGuards CreateUser)) = some (none, true, []) := by
    decide +kernel
  obtain ⟨s, hs, hrun⟩ := Option.bind_eq_some_iff.1 hrun
  obtain ⟨s', hs', hres⟩ := Option.map_eq_some_iff.1 hrun
  simp only [Prod.mk.injEq] at hres
  obtain ⟨hexec, hsome, hlist⟩ := hres
  refine ⟨s, s', hs, hs', ?_, hsome, hlist⟩
  have hg : (WorldAct.preHandle 0 .listed (guardFunc 3 Cls.object)).guardTarget (fun _ => []) =
      some (0, .cls Cls.object) := rfl
  rw [exec_guard s.world hg rfl] at hexec ⊢
  unfold gatherTypes at hexec ⊢
  cases h : allSubclasses s.world.graph Cls.object with
  | ok subs =>
    rw [h] at hexec
    cases hexec
  | error e =>
    rw [allSubclasses_error h]
    rfl

/-- A guard for `Any`, registered after one for `CreateUser`, is linked once and first. -/
theorem any_guard_linked :
    ∃ s s', Run.run step (new bases) (setup ++ [.world (.preHandle 0 .listed (guardFunc 7 CreateUser))]) = some s ∧
      Run.run step s [.world (.preHandle 0 .listed (guardFunc 3 Cls.any)), .world (.incl 0)] = some s' ∧
      (s.world.exec (.preHandle 0 .listed (guardFunc 3 Cls.any))).2 = .ok () ∧
      OnceAhead ((new bases).journal (setup ++ [.world (.preHandle 0 .listed (guardFunc 7 CreateUser))])).length
        (origins ((new bases).journal (setup ++ [.world (.preHandle 0 .listed (guardFunc 7 CreateUser))] ++
          [.world (.preHandle 0 .listed (guardFunc 3 Cls.any)), .world (.incl 0)])) CreateUser) := by
  have hrun : ((Run.run step (new bases) (setup ++ [.world (.preHandle 0 .listed (guardFunc 7 CreateUser))])).bind
      fun s => (Run.run step s [.world (.preHandle 0 .listed (guardFunc 3 Cls.any)), .world (.incl 0)]).map fun _ =>
        ((allSubclasses s.world.graph Cls.any).toOption.isSome, s.world.graph.issubclass CreateUser Cls.any)) =
      some (true, false) := by
    decide +kernel
  obtain ⟨s, hs, hrun⟩ := Option.bind_eq_some_iff.1 hrun
  obtain ⟨s', hs', hres⟩ := Option.map_eq_some_iff.1 hrun
  simp only [Prod.mk.injEq] at hres
  obtain ⟨hsubs, hsub⟩ := hres
  have hmeta : ∀ d, s.world.graph.Sub d Cls.any → ¬ s.world.graph.Sub d Cls.type := by
    rw [← allSubclasses_ok_iff]
    cases h : allSubclasses s.world.graph Cls.any with
    | ok subs => exact ⟨subs, rfl⟩
    | error e =>
      rw [h] at hsubs
      cases hsubs
  have hT : ¬ Relation.TransGen s.world.graph.DirectSub CreateUser Cls.any := by
    intro h
    rw [s.world.graph.issubclass_iff.2 h.to_reflTransGen] at hsub
    cases hsub
  exact ⟨s, s', hs, hs', (global_guard_once_iff bases (fun _ => []) _ _ _ s s' 0 Cls.any CreateUser hs hs'
    (Or.inl rfl) rfl).2.2 ⟨rfl, hmeta, rfl, rfl, hT⟩⟩

end System

end Anywise
