import Mathlib.Data.List.Forall2
import Anywise.Calls

/-!
# The guards of a type

When each registry is included after its registrations and once at most, the guards of a type are those of the
included registries, in include order and then in registration order (`guardList_eq`).  Each registration makes its
own guard objects, one for each type it targets, so no object occurs twice among them (`Numbered.nodup_layers`).
-/

namespace Anywise

/-! ### The guards of a type -/

/-- The registries included, in order. -/
def includeOrder (J : List Entry) : List Nat :=
  J.filterMap fun
    | .incl r => some r
    | _ => none

/-- Each registry is included after its guard registrations. -/
def IncludedAfter (J : List Entry) : Prop := ∀ J₁ e J₂, J = J₁ ++ .guard e :: J₂ → .incl e.registry ∉ J₁

/-- The guard registrations of the included registries: in include order, then in registration order. -/
def registeredGuards (J : List Entry) : List GuardReg := (includeOrder J).flatMap fun r => guardsIn r J

/-- The guards for `Any`, and those whose targets contain `T`. -/
def layersFor (J : List Entry) (T : Cls) : List GuardMeta :=
  guardsFor Cls.any (registeredGuards J) ++ guardsFor T (registeredGuards J)

/-- The guard objects that metas name. -/
def objectsOf (metas : List GuardMeta) : List GuardObj :=
  metas.filterMap fun m =>
    match m.guard with
    | .obj g => some g
    | .cls _ => none

theorem map_guard_eq {metas : List GuardMeta} (h : ∀ m ∈ metas, ∃ g, m.guard = .obj g) :
    metas.map GuardMeta.guard = (objectsOf metas).map GuardRef.obj := by
  induction metas with
  | nil => rfl
  | cons m metas ih =>
    obtain ⟨g, hg⟩ := h m List.mem_cons_self
    have ih := ih fun m' hm' => h m' (List.mem_cons_of_mem _ hm')
    rw [List.map_cons, ih]
    simp [objectsOf, hg]

section Included

variable {J : List Entry}

theorem mem_includeOrder {r : Nat} : r ∈ includeOrder J ↔ .incl r ∈ J := by
  unfold includeOrder
  rw [List.mem_filterMap]
  constructor
  · rintro ⟨e, he, hr⟩
    cases e with
    | incl r' =>
      cases hr
      exact he
    | handler _ _ _ _ => cases hr
    | guard _ => cases hr
  · exact fun h => ⟨_, h, rfl⟩

theorem IncludedAfter.of_snoc {e : Entry} (h : IncludedAfter (J ++ [e])) : IncludedAfter J :=
  fun J₁ e' J₂ hJ => h J₁ e' (J₂ ++ [e]) (by rw [hJ]; simp)

/-- The guards an `Anywise` holds are all guards of the included registries. -/
theorem includedGuards_eq (h : IncludedAfter J) : includedGuards J = registeredGuards J := by
  induction J using List.reverseRecOn with
  | nil => rfl
  | append_singleton J e ih =>
    cases e with
    | incl r =>
      rw [includedGuards_incl, ih h.of_snoc]
      simp [registeredGuards, includeOrder, guardsIn, List.filterMap_append]
    | handler r g ord t =>
      rw [includedGuards_snoc J (by simp), ih h.of_snoc]
      simp [registeredGuards, includeOrder, guardsIn, List.filterMap_append]
    | guard e =>
      rw [includedGuards_snoc J (by simp), ih h.of_snoc]
      have hsame : includeOrder (J ++ [.guard e]) = includeOrder J := by simp [includeOrder]
      rw [registeredGuards, registeredGuards, hsame]
      refine List.flatMap_congr fun r hr => ?_
      -- a registry included before gets no more guards
      have hne : e.registry ≠ r := by
        rintro rfl
        exact h J e [] rfl (mem_includeOrder.1 hr)
      rw [guardsIn_append]
      simp [guardsIn, hne]

theorem guardList_eq (h : IncludedAfter J) (T : Cls) : guardList J T = layersFor J T := by
  rw [guardList, includedGuards_eq h, layersFor]

end Included

/-! ### Guard objects are made for each registration -/

/-- The registration made the `Guard` objects number `i` of the registry `r`. -/
def GuardReg.Makes (e : GuardReg) (r i : Nat) : Prop := ∃ pre post, ∀ T, e.ref T = .obj (.guard r i T pre post)

/-- The guard registrations of each registry are numbered in order. -/
structure Numbered (w : World) (J : List Entry) : Prop where
  guardsMade : ∀ r, (w.registries r).guardsMade = (guardsIn r J).length
  makes : ∀ r i (e : GuardReg), (guardsIn r J)[i]? = some e → e.Makes r i

namespace Numbered

variable {w w' : World} {J : List Entry}

theorem new (bases : Nat → Option Cls × Option Cls) : Numbered (.new bases) [] where
  guardsMade _ := rfl
  makes r i e h := by simp [guardsIn] at h

/-- An action that registers no guard. -/
private theorem other (h : Numbered w J) {K : List Entry} (hK : ∀ r, guardsIn r K = [])
    (hw : ∀ r, (w'.registries r).guardsMade = (w.registries r).guardsMade) : Numbered w' (J ++ K) where
  guardsMade r := by rw [hw, h.guardsMade, guardsIn_append, hK, List.append_nil]
  makes r i e he := by
    rw [guardsIn_append, hK, List.append_nil] at he
    exact h.makes r i e he

private theorem guardStep (h : Numbered w J) (r : Nat) (ord : SetOrder) (func : Target) (ref : Cls → GuardRef)
    (pre post : Option FuncId) :
    Numbered
      (w.setRegistry r ((w.registries r).attempt
        (MessageRegistry.guardResult w.graph ord (w.registries r) func ref ((w.registries r).guardsMade + 1))).1)
      (J ++ (guardEntry r w.graph func fun t => .obj (.guard r (w.registries r).guardsMade t pre post)).toList) := by
  unfold MessageRegistry.guardResult
  cases hent : (w.registries r).getGuardtarget w.graph func with
  | error e =>
    rw [guardEntry_of_error hent]
    refine h.other (fun _ => rfl) fun r' => ?_
    show ((Function.update w.registries r (w.registries r)) r').guardsMade = _
    rw [Function.update_eq_self]
  | ok targets =>
    obtain ⟨e, he, rfl, -, href, -, -⟩ := guardEntry_of_ok r
      (fun t => .obj (.guard r (w.registries r).guardsMade t pre post)) hent
    rw [he, Option.toList_some]
    have hone : ∀ r', guardsIn r' [.guard e] = if e.registry = r' then [e] else [] := by
      intro r'
      by_cases hr : e.registry = r' <;> simp [guardsIn, hr]
    constructor
    · intro r'
      show ((Function.update w.registries e.registry _) r').guardsMade = _
      rw [guardsIn_append, hone]
      by_cases hr : e.registry = r'
      · subst hr
        rw [Function.update_self, if_pos rfl, List.length_append, ← h.guardsMade]
        rfl
      · rw [Function.update_of_ne (Ne.symm hr), if_neg hr, List.append_nil, h.guardsMade]
    · intro r' i e' he'
      rw [guardsIn_append, hone] at he'
      rcases Nat.lt_or_ge i (guardsIn r' J).length with hlt | hge
      · rw [List.getElem?_append_left hlt] at he'
        exact h.makes r' i e' he'
      · rw [List.getElem?_append_right hge] at he'
        by_cases hr : e.registry = r'
        · subst hr
          rw [if_pos rfl, List.getElem?_singleton] at he'
          split at he'
          · rename_i h0
            cases he'
            obtain rfl : i = (w.registries e.registry).guardsMade := by
              rw [h.guardsMade]
              omega
            exact ⟨pre, post, fun T => by rw [href]⟩
          · cases he'
        · rw [if_neg hr] at he'
          cases he'

/-- Registrations with `pre_handle` and `post_handle` are numbered in order. -/
theorem step (h : Numbered w J) {a : WorldAct} (ha : ∀ r ord g, a ≠ .addGuard r ord g) :
    Numbered (w.step a) (J ++ (w.entry a).toList) := by
  cases a with
  | define bs =>
    refine h.other (fun _ => rfl) fun r => ?_
    simp only [World.step, World.exec]
    split <;> rfl
  | register r ord handler =>
    refine h.other (fun _ => rfl) fun r' => ?_
    show ((Function.update w.registries r _) r').guardsMade = _
    by_cases hr : r' = r
    · subst hr
      rw [Function.update_self, (MessageRegistry._register_spec _ _ _ _).1.guardsMade]
    · rw [Function.update_of_ne hr]
  | preHandle r ord f => exact h.guardStep r ord f _ (some f.id) none
  | postHandle r ord f => exact h.guardStep r ord f _ none (some f.id)
  | addGuard r ord g => exact absurd rfl (ha r ord g)
  | incl r => exact h.other (fun _ => rfl) fun _ => rfl
  | readGuards T => exact h.other (fun _ => rfl) fun _ => rfl

theorem mem (h : Numbered w J) {e : GuardReg} (he : e ∈ registeredGuards J) : ∃ r i, e.Makes r i := by
  obtain ⟨r, -, he⟩ := List.mem_flatMap.1 he
  obtain ⟨i, hi⟩ := List.getElem?_of_mem he
  exact ⟨r, i, h.makes r i e hi⟩

/-- The guard objects of one type are all different. -/
theorem nodup_refs (h : Numbered w J) (honce : (includeOrder J).Nodup) (T : Cls) :
    ((registeredGuards J).map (·.ref T)).Nodup := by
  rw [registeredGuards, List.map_flatMap, List.nodup_flatMap]
  constructor
  · -- within a registry the numbers differ
    intro r _
    refine List.pairwise_iff_getElem.2 fun i j hi hj hij heq => ?_
    rw [List.length_map] at hi hj
    obtain ⟨_, _, hrefi⟩ := h.makes r i _ (List.getElem?_eq_getElem hi)
    obtain ⟨_, _, hrefj⟩ := h.makes r j _ (List.getElem?_eq_getElem hj)
    rw [List.getElem_map, List.getElem_map, hrefi, hrefj] at heq
    cases heq
    exact Nat.lt_irrefl _ hij
  · -- two registries make different objects
    refine honce.imp fun {r r'} hne x hx hx' => hne ?_
    obtain ⟨e, he, rfl⟩ := List.mem_map.1 hx
    obtain ⟨e', he', heq⟩ := List.mem_map.1 hx'
    obtain ⟨i, hi⟩ := List.getElem?_of_mem he
    obtain ⟨i', hi'⟩ := List.getElem?_of_mem he'
    obtain ⟨_, _, href⟩ := h.makes r i e hi
    obtain ⟨_, _, href'⟩ := h.makes r' i' e' hi'
    rw [href, href'] at heq
    cases heq
    rfl

private theorem mem_guardsFor (h : Numbered w J) {T : Cls} {m : GuardMeta}
    (hm : m ∈ guardsFor T (registeredGuards J)) : ∃ r i pre post, m.guard = .obj (.guard r i T pre post) := by
  obtain ⟨e, he, rfl⟩ := List.mem_map.1 hm
  obtain ⟨r, i, pre, post, href⟩ := h.mem (List.mem_of_mem_filter he)
  exact ⟨r, i, pre, post, href T⟩

/-- No layer of a type is a class-based guard. -/
theorem plain_layers (h : Numbered w J) (T : Cls) : ∀ g ∈ objectsOf (layersFor J T), g.isCustom = false := by
  intro g hg
  obtain ⟨m, hm, hobj⟩ := List.mem_filterMap.1 hg
  have hform : ∃ r i U pre post, m.guard = .obj (.guard r i U pre post) := by
    rcases List.mem_append.1 hm with hm | hm
    · obtain ⟨r, i, pre, post, hmg⟩ := h.mem_guardsFor hm
      exact ⟨r, i, _, pre, post, hmg⟩
    · obtain ⟨r, i, pre, post, hmg⟩ := h.mem_guardsFor hm
      exact ⟨r, i, _, pre, post, hmg⟩
  obtain ⟨r, i, U, pre, post, hmg⟩ := hform
  rw [hmg] at hobj
  cases hobj
  rfl

/-- The layers of a type are guard objects, without repetitions. -/
theorem nodup_layers (h : Numbered w J) (honce : (includeOrder J).Nodup) {T : Cls} (hT : T ≠ Cls.any) :
    (layersFor J T).map GuardMeta.guard = (objectsOf (layersFor J T)).map GuardRef.obj ∧
      (objectsOf (layersFor J T)).Nodup := by
  have hobj : (layersFor J T).map GuardMeta.guard = (objectsOf (layersFor J T)).map GuardRef.obj := by
    refine map_guard_eq fun m hm => ?_
    rcases List.mem_append.1 hm with hm | hm
    · obtain ⟨r, i, pre, post, hg⟩ := h.mem_guardsFor hm
      exact ⟨_, hg⟩
    · obtain ⟨r, i, pre, post, hg⟩ := h.mem_guardsFor hm
      exact ⟨_, hg⟩
  have hnodup : ∀ U, ((guardsFor U (registeredGuards J)).map GuardMeta.guard).Nodup := by
    intro U
    rw [guardsFor, List.map_map]
    exact (h.nodup_refs honce U).sublist (List.filter_sublist.map _)
  refine ⟨hobj, List.Nodup.of_map GuardRef.obj ?_⟩
  rw [← hobj, layersFor, List.map_append, List.nodup_append]
  refine ⟨hnodup _, hnodup _, ?_⟩
  intro x hx y hy hxy
  obtain ⟨m, hm, rfl⟩ := List.mem_map.1 hx
  obtain ⟨m', hm', rfl⟩ := List.mem_map.1 hy
  obtain ⟨r, i, pre, post, hg⟩ := h.mem_guardsFor hm
  obtain ⟨r', i', pre', post', hg'⟩ := h.mem_guardsFor hm'
  rw [hg, hg'] at hxy
  cases hxy
  exact hT rfl

end Numbered

/-- The guards of a run without `add_guards` are numbered in order. -/
theorem System.numbered_run {s s' : System} {J : List Entry} {acts : List SysAct} (hN : Numbered s.world J)
    (hplain : ∀ r ord g, .world (.addGuard r ord g) ∉ acts) (h : Run.run System.step s acts = some s') :
    Numbered s'.world (J ++ s.journal acts) := by
  induction acts generalizing s J with
  | nil =>
    cases h
    rw [journal, List.append_nil]
    exact hN
  | cons a acts ih =>
    obtain ⟨u, hu, h⟩ := Run.run_cons.1 h
    rw [journal_cons hu, ← List.append_assoc]
    refine ih ?_ (fun r ord g hm => hplain r ord g (List.mem_cons_of_mem _ hm)) h
    rcases step_world hu with ⟨hw, he⟩ | ⟨b, hw, he, hb⟩
    · rw [hw, he, List.append_nil]
      exact hN
    · rw [hw, he]
      refine hN.step fun r ord g hbg => ?_
      rcases hb with rfl | ⟨T, rfl⟩
      · exact hplain r ord g (by simp [hbg])
      · cases hbg

end Anywise
