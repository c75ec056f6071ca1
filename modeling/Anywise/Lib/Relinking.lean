import Anywise.Lib.Chain
import Mathlib.Data.List.Induction
import Mathlib.Logic.Relation

/-!
# Linking over and over

Lists of nodes are linked one after another, each over the links that are there.  A later linking overwrites pieces
of earlier chains, and yet a walk from a node that was ever linked arrives at an end (`path_linkAll`): up to the
first node of the last list it goes as before, and from there on through the last list.  Hence no cycle runs through
a linked node, and the cycles among the others are those that were there at the start (`cycle_linkAll`).
-/

namespace Chain

variable {α β : Type}

/-- A list of nodes to be linked, and the end to link it to. -/
structure Linking (α β : Type) where
  head : α
  rest : List α
  stop : β

def Linking.nodes (k : Linking α β) : List α := k.head :: k.rest

/-- The nodes linked by some of the linkings. -/
def linkedBy (ks : List (Linking α β)) : List α := ks.flatMap Linking.nodes

/-- The linkings, in order. -/
def linkAll [DecidableEq α] (links : Links α β) (ks : List (Linking α β)) : Links α β :=
  ks.foldl (fun links k => linkFrom links k.head k.rest k.stop) links

/-- The link of `x` leads to `y`. -/
def Next (links : Links α β) (x y : α) : Prop := links x = some (.inl y)

/-- `y` stands behind the last occurrence of `x` in the last list that has `x`. -/
def FollowsLast (ks : List (Linking α β)) (x y : α) : Prop :=
  ∃ ks₁ k ks₂ pre post, ks = ks₁ ++ k :: ks₂ ∧ x ∉ linkedBy ks₂ ∧ k.nodes = pre ++ x :: y :: post ∧ x ∉ y :: post

/-! ### Walks that arrive -/

theorem Path.unique {links : Links α β} {s : α ⊕ β} {l l' : List α} {e e' : β} (h : Path links s l e)
    (h' : Path links s l' e') : l = l' ∧ e = e' := by
  induction h generalizing l' with
  | stop e =>
    cases h'
    exact ⟨rfl, rfl⟩
  | step hx _ ih =>
    cases h' with
    | step hx' h' =>
      have hs := hx.symm.trans hx'
      cases hs
      obtain ⟨rfl, rfl⟩ := ih h'
      exact ⟨rfl, rfl⟩

/-- Each node of a walk but the last is linked to the one after it. -/
theorem Path.isChain {links : Links α β} {s : α ⊕ β} {l : List α} {e : β} (h : Path links s l e) :
    l.IsChain (Next links) := by
  induction h with
  | stop e => exact .nil
  | @step x s l e hx hrest ih =>
    cases hrest with
    | stop e => exact .singleton x
    | step hy hrest => exact .cons_cons hx ih

/-- One step on, the rest of the walk is shorter. -/
private theorem Path.of_next {links : Links α β} {x y : α} {l : List α} {e : β} (h : Path links (.inl x) l e)
    (hxy : Next links x y) : ∃ l', Path links (.inl y) l' e ∧ l'.length < l.length := by
  cases h with
  | @step _ s l e hx h =>
    have hs : s = .inl y := Option.some.inj (hx.symm.trans hxy)
    subst hs
    exact ⟨l, h, Nat.lt_succ_self _⟩

private theorem Path.of_transGen {links : Links α β} {x y : α} {l : List α} {e : β} (h : Path links (.inl x) l e)
    (hxy : Relation.TransGen (Next links) x y) : ∃ l', Path links (.inl y) l' e ∧ l'.length < l.length := by
  induction hxy with
  | single hxy => exact h.of_next hxy
  | tail _ hyz ih =>
    obtain ⟨l1, h1, hlt1⟩ := ih
    obtain ⟨l2, h2, hlt2⟩ := h1.of_next hyz
    exact ⟨l2, h2, Nat.lt_trans hlt2 hlt1⟩

/-- A walk that arrives does not begin on a cycle. -/
theorem Path.not_cycle {links : Links α β} {x : α} {l : List α} {e : β} (h : Path links (.inl x) l e) :
    ¬ Relation.TransGen (Next links) x x := by
  intro hx
  obtain ⟨l', h', hlt⟩ := h.of_transGen hx
  obtain ⟨rfl, -⟩ := h.unique h'
  exact Nat.lt_irrefl _ hlt

/-! ### What a linking leaves -/

section Relink

variable [DecidableEq α]

/-- After another list has been linked a walk still arrives, by nodes from before and of that list. -/
theorem Path.relink {links : Links α β} {s : α ⊕ β} {l : List α} {e : β} (h : Path links s l e)
    (k : Linking α β) :
    ∃ l' e', Path (linkFrom links k.head k.rest k.stop) s l' e' ∧ ∀ y ∈ l', y ∈ l ∨ y ∈ k.nodes := by
  -- the walk leaves the old links at the first node of the list
  induction h with
  | stop e => exact ⟨[], e, .stop e, fun y hy => absurd hy List.not_mem_nil⟩
  | @step x s l e hx _ ih =>
    by_cases hk : x ∈ k.nodes
    · obtain ⟨l', hl', hmem⟩ := path_linkFrom_of_mem links k.stop hk
      exact ⟨l', k.stop, hl', fun y hy => Or.inr (hmem y hy)⟩
    · obtain ⟨l', e', hl', hmem⟩ := ih
      refine ⟨x :: l', e', .step ((linkFrom_of_notMem hk).trans hx) hl', fun y hy => ?_⟩
      rcases List.mem_cons.1 hy with rfl | hy
      · exact Or.inl List.mem_cons_self
      · exact (hmem y hy).imp_left (List.mem_cons_of_mem x)

theorem linkAll_concat (links : Links α β) (ks : List (Linking α β)) (k : Linking α β) :
    linkAll links (ks ++ [k]) = linkFrom (linkAll links ks) k.head k.rest k.stop := by
  rw [linkAll, List.foldl_append]
  rfl

omit [DecidableEq α] in
theorem mem_linkedBy_concat {ks : List (Linking α β)} {k : Linking α β} {x : α} :
    x ∈ linkedBy (ks ++ [k]) ↔ x ∈ linkedBy ks ∨ x ∈ k.nodes := by
  simp [linkedBy]

/-- From a node that was linked the walk arrives, by nodes that were linked. -/
theorem path_linkAll (links : Links α β) (ks : List (Linking α β)) {x : α} (hx : x ∈ linkedBy ks) :
    ∃ l e, Path (linkAll links ks) (.inl x) l e ∧ ∀ y ∈ l, y ∈ linkedBy ks := by
  induction ks using List.reverseRecOn generalizing x with
  | nil => cases hx
  | append_singleton ks k ih =>
    rw [linkAll_concat]
    by_cases hk : x ∈ k.nodes
    · obtain ⟨l, hl, hmem⟩ := path_linkFrom_of_mem (linkAll links ks) k.stop hk
      exact ⟨l, k.stop, hl, fun y hy => mem_linkedBy_concat.2 (Or.inr (hmem y hy))⟩
    · obtain ⟨l, e, hl, hmem⟩ := ih ((mem_linkedBy_concat.1 hx).resolve_right hk)
      obtain ⟨l', e', hl', hmem'⟩ := hl.relink k
      exact ⟨l', e', hl', fun y hy => mem_linkedBy_concat.2 ((hmem' y hy).imp_left (hmem y))⟩

/-- The node after a linked one is linked. -/
theorem linked_of_next {links : Links α β} {ks : List (Linking α β)} {x y : α} (hx : x ∈ linkedBy ks)
    (hxy : Next (linkAll links ks) x y) : y ∈ linkedBy ks := by
  obtain ⟨l, e, hl, hmem⟩ := path_linkAll links ks hx
  cases hl with
  | @step _ s l e hs hl =>
    have he : s = .inl y := Option.some.inj (hs.symm.trans hxy)
    subst he
    cases hl with
    | step _ _ => exact hmem y (by simp)

theorem linkAll_of_notMem {links : Links α β} {ks : List (Linking α β)} {x : α} (hx : x ∉ linkedBy ks) :
    linkAll links ks x = links x := by
  induction ks using List.reverseRecOn with
  | nil => rfl
  | append_singleton ks k ih =>
    rw [mem_linkedBy_concat, not_or] at hx
    rw [linkAll_concat, linkFrom_of_notMem hx.2, ih hx.1]

omit [DecidableEq α] in
/-- The last list counts if it has the node. -/
theorem followsLast_concat {ks : List (Linking α β)} {k : Linking α β} {x y : α} :
    FollowsLast (ks ++ [k]) x y ↔ (∃ pre post, k.nodes = pre ++ x :: y :: post ∧ x ∉ y :: post) ∨
      x ∉ k.nodes ∧ FollowsLast ks x y := by
  constructor
  · rintro ⟨ks₁, k', ks₂, pre, post, hsplit, hlast, hl, hno⟩
    rcases List.eq_nil_or_concat ks₂ with rfl | ⟨ks₂, k₂, rfl⟩
    · obtain rfl := List.singleton_inj.1 (List.append_inj' hsplit rfl).2
      exact Or.inl ⟨pre, post, hl, hno⟩
    · rw [List.concat_eq_append] at hsplit hlast
      rw [← List.cons_append, ← List.append_assoc] at hsplit
      obtain ⟨hinit, hk⟩ := List.append_inj' hsplit rfl
      obtain rfl := List.singleton_inj.1 hk
      rw [mem_linkedBy_concat, not_or] at hlast
      exact Or.inr ⟨hlast.2, ks₁, k', ks₂, pre, post, hinit, hlast.1, hl, hno⟩
  · rintro (⟨pre, post, hl, hno⟩ | ⟨hk, ks₁, k', ks₂, pre, post, rfl, hlast, hl, hno⟩)
    · exact ⟨ks, k, [], pre, post, rfl, List.not_mem_nil, hl, hno⟩
    · refine ⟨ks₁, k', ks₂ ++ [k], pre, post, by simp, fun hmem => ?_, hl, hno⟩
      exact (mem_linkedBy_concat.1 hmem).elim hlast hk

/-- The link of a linked node is the one written last. -/
theorem next_linkAll_iff {links : Links α β} {ks : List (Linking α β)} {x y : α} (hx : x ∈ linkedBy ks) :
    Next (linkAll links ks) x y ↔ FollowsLast ks x y := by
  induction ks using List.reverseRecOn with
  | nil => cases hx
  | append_singleton ks k ih =>
    have hlink : Next (linkAll links (ks ++ [k])) x y ↔
        (nextOf x k.stop k.nodes).or (linkAll links ks x) = some (.inl y) := by
      rw [Next, linkAll_concat, linkFrom_apply]
      rfl
    rw [hlink, followsLast_concat, ← nextOf_eq_inl (e := k.stop)]
    by_cases hk : x ∈ k.nodes
    · obtain ⟨s, hs⟩ := Option.isSome_iff_exists.1 (nextOf_isSome (e := k.stop).2 hk)
      rw [hs, Option.some_or]
      exact ⟨Or.inl, fun h => h.elim id fun h => absurd hk h.1⟩
    · rw [nextOf_eq_none.2 hk, Option.none_or]
      have ih := ih ((mem_linkedBy_concat.1 hx).resolve_right hk)
      exact ⟨fun h => Or.inr ⟨hk, ih.1 h⟩, fun h => h.elim (fun h => by cases h) fun h => ih.2 h.2⟩

/-- Linking makes no cycles. -/
theorem cycle_linkAll {links : Links α β} {ks : List (Linking α β)} {x : α}
    (h : Relation.TransGen (Next (linkAll links ks)) x x) :
    x ∉ linkedBy ks ∧ Relation.TransGen (Next links) x x := by
  have hout : ∀ y, Relation.TransGen (Next (linkAll links ks)) y y → y ∉ linkedBy ks := by
    intro y hy hmem
    obtain ⟨l, e, hl, -⟩ := path_linkAll links ks hmem
    exact hl.not_cycle hy
  -- every node on the way is on the cycle, so its link is the one from the start
  have hold : ∀ y, Relation.TransGen (Next (linkAll links ks)) x y →
      Relation.ReflTransGen (Next (linkAll links ks)) y x → Relation.TransGen (Next links) x y := by
    intro y hxy
    induction hxy with
    | single hxy =>
      intro _
      exact .single ((linkAll_of_notMem (hout x h)).symm.trans hxy)
    | @tail y z hxy hyz ih =>
      intro hzx
      have hyx : Relation.TransGen (Next (linkAll links ks)) y x := .head' hyz hzx
      have hy : y ∉ linkedBy ks := hout y (hyx.trans hxy)
      exact (ih hyx.to_reflTransGen).tail ((linkAll_of_notMem hy).symm.trans hyz)
  exact ⟨hout x h, hold x h .refl⟩

end Relink

end Chain
