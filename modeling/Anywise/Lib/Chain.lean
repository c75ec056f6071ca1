import Mathlib.Data.List.Nodup
import Mathlib.Logic.Function.Basic

/-!
# Chains linked in place

Nodes carry one mutable link each, to another node or to an end.  Linking a list of nodes overwrites the link of
each of them with the node after it, and of the last one with the end.  A node that occurs twice has one link only,
the one written at its last occurrence, so a walk from the head jumps there: `visited` is the list of nodes the
walk meets (`path_linkFrom`).  The walk meets every node of the list exactly when `NoSkip` holds
(`visited_all_iff`), which a list without repetitions satisfies.
-/

namespace Chain

variable {α β : Type} [DecidableEq α]

/-- The links of all nodes: to a node, to an end, or not set. -/
abbrev Links (α β : Type) := α → Option (α ⊕ β)

/-- Links `ptr` to the first node of the list, that one to the second, …, and the last one to `e`. -/
def linkFrom (links : Links α β) (ptr : α) : List α → β → Links α β
  | [], e => Function.update links ptr (some (.inr e))
  | nxt :: rest, e => linkFrom (Function.update links ptr (some (.inl nxt))) nxt rest e

/-- Where a walk over a linked list starts. -/
def start (l : List α) (e : β) : α ⊕ β :=
  match l with
  | [] => .inr e
  | x :: _ => .inl x

/-- What follows the last occurrence of `x` in the list. -/
def nextOf (x : α) (e : β) : List α → Option (α ⊕ β)
  | [] => none
  | y :: rest => (nextOf x e rest).or (if y = x then some (start rest e) else none)

/-- The nodes a walk over the linked list meets; with `skip = some x` it is on its way to the last `x`. -/
def visitedFrom (skip : Option α) : List α → List α
  | [] => []
  | y :: rest =>
    if skip.getD y ∈ rest then visitedFrom (some (skip.getD y)) rest else y :: visitedFrom none rest

/-- The nodes a walk from the head of the linked list meets, in order. -/
def visited (l : List α) : List α := visitedFrom none l

/-- Following the links from a place meets the nodes `l` and then the end `e`. -/
inductive Path (links : Links α β) : α ⊕ β → List α → β → Prop
  | stop (e : β) : Path links (.inr e) [] e
  | step {x : α} {s : α ⊕ β} {l : List α} {e : β} (hx : links x = some s) (h : Path links s l e) :
      Path links (.inl x) (x :: l) e

/-- At the head, and behind the last occurrence of any node: if the node there occurs again, the nodes before
that occurrence occur once more behind it. -/
def NoSkip (l : List α) : Prop :=
  ∀ pre x mid post, l = pre ++ x :: (mid ++ x :: post) →
    (∀ p q, pre = p ++ [q] → q ∉ x :: (mid ++ x :: post)) → ∀ y ∈ mid, y = x ∨ y ∈ post

/-! ### What linking writes -/

theorem nextOf_isSome {x : α} {e : β} {l : List α} : (nextOf x e l).isSome ↔ x ∈ l := by
  induction l with
  | nil => simp [nextOf]
  | cons y l ih =>
    rw [nextOf, Option.isSome_or, Bool.or_eq_true, ih, List.mem_cons]
    by_cases h : y = x
    · simp [h]
    · simp [h, Ne.symm h]

theorem nextOf_eq_none {x : α} {e : β} {l : List α} : nextOf x e l = none ↔ x ∉ l := by
  rw [← nextOf_isSome (e := e), Bool.not_eq_true, Option.isSome_eq_false_iff, Option.isNone_iff_eq_none]

/-- What follows a node in the list: the next node, or the end after the last one. -/
theorem split_of_nextOf {x : α} {e : β} {l : List α} {s : α ⊕ β} (h : nextOf x e l = some s) :
    (∃ y pre post, s = .inl y ∧ l = pre ++ x :: y :: post) ∨ s = .inr e ∧ l.getLast? = some x := by
  induction l with
  | nil => cases h
  | cons y l ih =>
    rw [nextOf, Option.or_eq_some_iff] at h
    rcases h with h | ⟨-, h⟩
    · rcases ih h with ⟨z, pre, post, rfl, rfl⟩ | ⟨rfl, hl⟩
      · exact Or.inl ⟨z, y :: pre, post, rfl, rfl⟩
      · obtain ⟨z, l, rfl⟩ := List.exists_cons_of_ne_nil (show l ≠ [] by rintro rfl; cases hl)
        exact Or.inr ⟨rfl, by rw [List.getLast?_cons_cons, hl]⟩
    · split at h
      · rename_i hyx
        subst hyx
        cases l with
        | nil =>
          cases h
          exact Or.inr ⟨rfl, rfl⟩
        | cons z l =>
          cases h
          exact Or.inl ⟨z, [], l, rfl, rfl⟩
      · cases h

/-- What follows the last occurrence of a node, if it is a node. -/
theorem nextOf_eq_inl {x y : α} {e : β} {l : List α} :
    nextOf x e l = some (.inl y) ↔ ∃ pre post, l = pre ++ x :: y :: post ∧ x ∉ y :: post := by
  induction l with
  | nil => simp [nextOf]
  | cons z l ih =>
    rw [nextOf, Option.or_eq_some_iff, ih, nextOf_eq_none]
    constructor
    · rintro (⟨pre, post, rfl, hno⟩ | ⟨hx, h⟩)
      · exact ⟨z :: pre, post, rfl, hno⟩
      · split at h
        · rename_i hzx
          subst hzx
          cases l with
          | nil => cases h
          | cons y' l =>
            cases h
            exact ⟨[], l, rfl, hx⟩
        · cases h
    · rintro ⟨pre, post, hl, hno⟩
      rcases pre with _ | ⟨z', pre⟩
      · obtain ⟨rfl, rfl⟩ := List.cons.inj hl
        exact Or.inr ⟨hno, by simp [start]⟩
      · obtain ⟨rfl, rfl⟩ := List.cons.inj hl
        exact Or.inl ⟨pre, post, rfl, hno⟩

theorem linkFrom_apply (links : Links α β) (ptr : α) (rest : List α) (e : β) (x : α) :
    linkFrom links ptr rest e x = (nextOf x e (ptr :: rest)).or (links x) := by
  induction rest generalizing links ptr with
  | nil =>
    by_cases h : ptr = x
    · subst h
      simp [linkFrom, nextOf, start]
    · simp [linkFrom, nextOf, h, Function.update_of_ne (Ne.symm h)]
  | cons nxt rest ih =>
    rw [linkFrom, ih, nextOf.eq_2 x e ptr]
    by_cases h : ptr = x
    · subst h
      cases nextOf ptr e (nxt :: rest) <;> simp [start]
    · simp [h, Function.update_of_ne (Ne.symm h)]

theorem linkFrom_of_notMem {links : Links α β} {ptr : α} {rest : List α} {e : β} {x : α}
    (h : x ∉ ptr :: rest) : linkFrom links ptr rest e x = links x := by
  rw [linkFrom_apply, nextOf_eq_none.2 h, Option.none_or]

/-! ### The walk -/

private theorem visitedFrom_subset {l : List α} {skip : Option α} {x : α} (h : x ∈ visitedFrom skip l) : x ∈ l := by
  induction l generalizing skip with
  | nil => cases h
  | cons y rest ih =>
    unfold visitedFrom at h
    split at h
    · exact List.mem_cons_of_mem _ (ih h)
    · rcases List.mem_cons.1 h with rfl | h
      · exact List.mem_cons_self
      · exact List.mem_cons_of_mem _ (ih h)

private theorem path_visitedFrom {links : Links α β} {e : β} (l : List α) :
    (∀ x ∈ l, links x = nextOf x e l) →
      Path links (start l e) (visitedFrom none l) e ∧
        ∀ x ∈ l, Path links (.inl x) (visitedFrom (some x) l) e := by
  induction l with
  | nil => exact fun _ => ⟨.stop e, fun x hx => absurd hx List.not_mem_nil⟩
  | cons y rest ih =>
    intro h
    have hrest : ∀ x ∈ rest, links x = nextOf x e rest := by
      intro x hx
      rw [h x (List.mem_cons_of_mem _ hx), nextOf]
      obtain ⟨s, hs⟩ := Option.isSome_iff_exists.1 (nextOf_isSome.2 hx)
      rw [hs, Option.some_or]
    obtain ⟨ih1, ih2⟩ := ih hrest
    have hlast : y ∉ rest → Path links (.inl y) (y :: visitedFrom none rest) e := by
      intro hy
      refine .step ?_ ih1
      rw [h y List.mem_cons_self, nextOf, nextOf_eq_none.2 hy]
      simp
    constructor
    · show Path links (.inl y) _ e
      by_cases hy : y ∈ rest
      · simpa [visitedFrom, hy] using ih2 y hy
      · simpa [visitedFrom, hy] using hlast hy
    · intro x hx
      by_cases hxr : x ∈ rest
      · simpa [visitedFrom, hxr] using ih2 x hxr
      · -- the walk has arrived at the last occurrence
        obtain rfl : x = y := (List.mem_cons.1 hx).resolve_right hxr
        simpa [visitedFrom, hxr] using hlast hxr

/-- The walk over a list just linked. -/
theorem path_linkFrom (links : Links α β) (head : α) (rest : List α) (e : β) :
    Path (linkFrom links head rest e) (.inl head) (visited (head :: rest)) e := by
  refine (path_visitedFrom (head :: rest) fun x hx => ?_).1
  rw [linkFrom_apply]
  obtain ⟨s, hs⟩ := Option.isSome_iff_exists.1 (nextOf_isSome (e := e).2 hx)
  rw [hs, Option.some_or]

/-- The walk from any node of a list just linked stays in the list. -/
theorem path_linkFrom_of_mem (links : Links α β) {head : α} {rest : List α} (e : β) {x : α} (hx : x ∈ head :: rest) :
    ∃ l, Path (linkFrom links head rest e) (.inl x) l e ∧ ∀ y ∈ l, y ∈ head :: rest := by
  refine ⟨_, (path_visitedFrom (head :: rest) fun y hy => ?_).2 x hx, fun y hy => visitedFrom_subset hy⟩
  rw [linkFrom_apply]
  obtain ⟨s, hs⟩ := Option.isSome_iff_exists.1 (nextOf_isSome (e := e).2 hy)
  rw [hs, Option.some_or]

omit [DecidableEq α] in
/-- A walk is not changed by writing to nodes it does not meet. -/
theorem Path.congr {links links' : Links α β} {s : α ⊕ β} {l : List α} {e : β} (h : Path links s l e)
    (hl : ∀ x ∈ l, links' x = links x) : Path links' s l e := by
  induction h with
  | stop e => exact .stop e
  | step hx _ ih =>
    exact .step ((hl _ List.mem_cons_self).trans hx) (ih fun x hx => hl x (List.mem_cons_of_mem _ hx))

/-! ### Which nodes are met -/

theorem visited_subset {l : List α} {x : α} (h : x ∈ visited l) : x ∈ l := visitedFrom_subset h

theorem visited_cons_of_notMem {x : α} {l : List α} (h : x ∉ l) : visited (x :: l) = x :: visited l := by
  simp [visited, visitedFrom, h]

private theorem visitedFrom_skip {x : α} {post : List α} (h : x ∉ post) (mid : List α) :
    visitedFrom (some x) (mid ++ x :: post) = x :: visited post := by
  induction mid with
  | nil => simp [visitedFrom, visited, h]
  | cons y mid ih => simpa [visitedFrom] using ih

/-- From a node that occurs again the walk jumps to its last occurrence. -/
theorem visited_skip {x : α} {mid post : List α} (h : x ∉ post) :
    visited (x :: (mid ++ x :: post)) = x :: visited post := by
  rw [visited, visitedFrom]
  simp only [Option.getD_none, List.mem_append, List.mem_cons, true_or, or_true, ↓reduceIte]
  exact visitedFrom_skip h mid

theorem visited_of_nodup {l : List α} (h : l.Nodup) : visited l = l := by
  induction l with
  | nil => rfl
  | cons x l ih =>
    rw [List.nodup_cons] at h
    rw [visited_cons_of_notMem h.1, ih h.2]

/-- A list with `x` in it splits at the last `x`. -/
theorem split_last {x : α} {l : List α} (h : x ∈ l) : ∃ mid post, l = mid ++ x :: post ∧ x ∉ post := by
  induction l with
  | nil => cases h
  | cons y l ih =>
    by_cases hx : x ∈ l
    · obtain ⟨mid, post, rfl, hp⟩ := ih hx
      exact ⟨y :: mid, post, rfl, hp⟩
    · obtain rfl := (List.mem_cons.1 h).resolve_right hx
      exact ⟨[], l, rfl, hx⟩

/-- The walk begins at the head. -/
theorem visited_cons (x : α) (l : List α) : ∃ tail, visited (x :: l) = x :: tail := by
  by_cases hx : x ∈ l
  · obtain ⟨mid, post, rfl, hp⟩ := split_last hx
    exact ⟨_, visited_skip hp⟩
  · exact ⟨_, visited_cons_of_notMem hx⟩

/-- The walk meets no node twice. -/
theorem visited_nodup (l : List α) : (visited l).Nodup := by
  induction hn : l.length using Nat.strongRecOn generalizing l with
  | _ n ih =>
    subst hn
    rcases l with _ | ⟨x, l⟩
    · exact List.nodup_nil
    · by_cases hx : x ∈ l
      · obtain ⟨mid, post, rfl, hp⟩ := split_last hx
        rw [visited_skip hp, List.nodup_cons]
        exact ⟨fun h => hp (visited_subset h), ih post.length (by simp; omega) post rfl⟩
      · rw [visited_cons_of_notMem hx, List.nodup_cons]
        exact ⟨fun h => hx (visited_subset h), ih l.length (by simp) l rfl⟩

omit [DecidableEq α] in
private theorem noSkip_cons {x : α} {l : List α} (h : x ∉ l) : NoSkip (x :: l) ↔ NoSkip l := by
  constructor
  · intro hn pre z mid post hl hpre
    refine hn (x :: pre) z mid post (by rw [hl]; rfl) fun p q hpq => ?_
    rcases p with _ | ⟨p, ps⟩
    · obtain ⟨rfl, rfl⟩ : x = q ∧ pre = [] := by simpa using hpq
      rwa [hl] at h
    · exact hpre ps q (List.cons.inj hpq).2
  · intro hn pre z mid post hl hpre
    rcases pre with _ | ⟨p, pre⟩
    · obtain ⟨rfl, rfl⟩ := List.cons.inj hl
      exact absurd (by simp) h
    · obtain ⟨rfl, rfl⟩ := List.cons.inj hl
      exact hn pre z mid post rfl fun p q hpq => hpre (x :: p) q (by rw [hpq]; rfl)

omit [DecidableEq α] in
private theorem noSkip_skip {x : α} {mid post : List α} (h : x ∉ post) :
    NoSkip (x :: (mid ++ x :: post)) ↔ (∀ y ∈ mid, y = x ∨ y ∈ post) ∧ NoSkip post := by
  constructor
  · intro hn
    refine ⟨hn [] x mid post rfl (by simp), fun pre z m q hl hpre => ?_⟩
    refine hn (x :: (mid ++ x :: pre)) z m q (by rw [hl]; simp) fun p r hpr => ?_
    rcases List.eq_nil_or_concat pre with rfl | ⟨pre, t, rfl⟩
    · obtain ⟨-, rfl⟩ : x :: mid = p ∧ x = r := by
        have := hpr
        rw [← List.cons_append] at this
        simpa using List.append_inj' this rfl
      rwa [hl] at h
    · have hr : (x :: (mid ++ x :: pre)) ++ [t] = p ++ [r] := by simpa using hpr
      obtain rfl := List.singleton_inj.1 (List.append_inj' hr rfl).2
      exact hpre pre t (by simp)
  · rintro ⟨hmid, hn⟩ pre z m q hl hpre y hy
    rcases pre with _ | ⟨p, pre⟩
    · -- at the head: the chosen occurrence is not behind the last one
      obtain ⟨rfl, hl⟩ := List.cons.inj hl
      rcases List.append_eq_append_iff.1 hl with ⟨as, rfl, has⟩ | ⟨as, rfl, has⟩
      · rcases as with _ | ⟨a, as⟩
        · simp only [List.nil_append, List.cons.injEq, true_and] at has
          simp only [List.append_nil] at hy
          exact has ▸ hmid y hy
        · obtain ⟨-, rfl⟩ := List.cons.inj has
          exact absurd (by simp) h
      · rcases hmid y (by simp [hy]) with hy | hy
        · exact Or.inl hy
        · right
          rcases as with _ | ⟨a, as⟩
          · simp only [List.nil_append, List.cons.injEq, true_and] at has
            exact has ▸ hy
          · obtain ⟨-, rfl⟩ := List.cons.inj has
            simp [hy]
    · rw [List.cons_append, List.cons.injEq] at hl
      obtain ⟨rfl, hl⟩ := hl
      rcases List.append_eq_append_iff.1 hl with ⟨as, rfl, has⟩ | ⟨as, hmid', has⟩
      · rcases as with _ | ⟨a, as⟩
        · -- the place is the last `x` itself
          obtain ⟨rfl, rfl⟩ := List.cons.inj has
          exact absurd (by simp) h
        · rw [List.cons_append, List.cons.injEq] at has
          obtain ⟨rfl, has⟩ := has
          refine hn as z m q has (fun p r hpr => ?_) y hy
          exact hpre (x :: (mid ++ x :: p)) r (by rw [hpr]; simp)
      · -- the place lies before the last `x`: the node before it would have to occur again
        subst hmid'
        exfalso
        rcases List.eq_nil_or_concat pre with rfl | ⟨pre, t, rfl⟩
        · refine hpre [] x rfl ?_
          rw [has]
          simp
        · have ht := hpre (x :: pre) t (by simp)
          rw [has] at ht
          rcases hmid t (by simp) with rfl | hp
          · exact ht (by simp)
          · exact ht (by simp [hp])

/-- The walk meets every node of the list exactly when none is skipped. -/
theorem visited_all_iff (l : List α) : (∀ x ∈ l, x ∈ visited l) ↔ NoSkip l := by
  induction hn : l.length using Nat.strongRecOn generalizing l with
  | _ n ih =>
    subst hn
    rcases l with _ | ⟨x, l⟩
    · exact ⟨fun _ pre x mid post h => by simp at h, fun _ x hx => absurd hx List.not_mem_nil⟩
    · by_cases hx : x ∈ l
      · obtain ⟨mid, post, rfl, hp⟩ := split_last hx
        rw [noSkip_skip hp, visited_skip hp, ← ih post.length (by simp; omega) post rfl]
        constructor
        · intro h
          have hpost : ∀ y ∈ post, y ∈ visited post := fun y hy =>
            (List.mem_cons.1 (h y (by simp [hy]))).resolve_left fun e => hp (e ▸ hy)
          exact ⟨fun y hy => (List.mem_cons.1 (h y (by simp [hy]))).imp_right visited_subset, hpost⟩
        · rintro ⟨hmid, hpost⟩ y hy
          simp only [List.mem_cons, List.mem_append] at hy ⊢
          rcases hy with hy | hy | hy | hy
          · exact Or.inl hy
          · exact (hmid y hy).imp_right (hpost y)
          · exact Or.inl hy
          · exact Or.inr (hpost y hy)
      · rw [noSkip_cons hx, visited_cons_of_notMem hx, ← ih l.length (by simp) l rfl]
        constructor
        · exact fun h y hy =>
            (List.mem_cons.1 (h y (List.mem_cons_of_mem _ hy))).resolve_left fun e => hx (e ▸ hy)
        · intro h y hy
          rw [List.mem_cons] at hy ⊢
          exact hy.imp_right (h y)

instance (l : List α) : Decidable (NoSkip l) := decidable_of_iff _ (visited_all_iff l)

theorem noSkip_of_nodup {l : List α} (h : l.Nodup) : NoSkip l :=
  (visited_all_iff l).1 fun x hx => by rwa [visited_of_nodup h]

theorem mem_visited {l : List α} (h : NoSkip l) {x : α} : x ∈ visited l ↔ x ∈ l :=
  ⟨visited_subset, (visited_all_iff l).2 h x⟩

end Chain
