import Mathlib.Data.List.Dedup
import Mathlib.Data.List.SplitBy
import Mathlib.Data.List.TakeWhile

/-!
# Runs of equal keys

`runs key l` cuts a list where the key changes.  In general one key may have several runs; the runs are the groups of
the list, one for each key and with all its elements, exactly when the elements of each key stand together
(`runs_areGroups_iff`).
-/

namespace Grouping

variable {α κ : Type} [DecidableEq κ] (key : α → κ)

/-- The maximal runs of elements with the same key. -/
def runs (l : List α) : List (List α) := l.splitBy fun a b => key a == key b

/-- All elements with the key, in order. -/
def group (l : List α) (k : κ) : List α := l.filter fun a => key a == k

omit [DecidableEq κ] in
/-- An element whose key occurs again is followed by an element with this key. -/
def Contiguous (l : List α) : Prop :=
  ∀ pre a post, l = pre ++ a :: post → (∃ b ∈ post, key b = key a) → ∃ b ∈ post.head?, key b = key a

/-- The list of lists is the groups of `l`, one for each key that occurs. -/
def AreGroups (l : List α) (gs : List (List α)) : Prop :=
  ∃ ks : List κ, ks.Nodup ∧ (∀ k, k ∈ ks ↔ ∃ a ∈ l, key a = k) ∧ gs = ks.map (group key l)

omit [DecidableEq κ] in
/-- The list of lists is `l` cut where the key changes: nothing is lost, added or moved, and each piece has one key,
another one than the next. -/
structure CutAt (l : List α) (gs : List (List α)) : Prop where
  flatten : gs.flatten = l
  nonempty : ∀ g ∈ gs, g ≠ []
  single : ∀ g ∈ gs, ∃ k, ∀ a ∈ g, key a = k
  changes : gs.IsChain fun g g' => ∀ a ∈ g, ∀ b ∈ g', key a ≠ key b

variable {key} {k : κ} {run rest : List α}

/-! ### The first run -/

theorem runs_of_forall (hne : run ≠ []) (hrun : ∀ a ∈ run, key a = k) : runs key run = [run] := by
  refine List.splitBy_of_isChain hne (List.Pairwise.isChain (List.pairwise_of_forall_mem_list fun a ha b hb => ?_))
  rw [hrun a ha, hrun b hb]
  exact beq_self_eq_true k

/-- The runs of a list that begins with a run. -/
theorem runs_append (hne : run ≠ []) (hrun : ∀ a ∈ run, key a = k) (hrest : ∀ b ∈ rest.head?, key b ≠ k) :
    runs key (run ++ rest) = run :: runs key rest := by
  have hcut : runs key (run ++ rest) = runs key run ++ runs key rest := by
    refine List.splitBy_append fun x hx y hy => ?_
    rw [hrun x (List.mem_of_getLast? hx)]
    exact beq_eq_false_iff_ne.2 (hrest y hy).symm
  rw [hcut, runs_of_forall hne hrun, List.singleton_append]

variable (key) in
/-- Every list begins with a run. -/
theorem exists_run {l : List α} (hl : l ≠ []) :
    ∃ k run rest, l = run ++ rest ∧ run ≠ [] ∧ (∀ a ∈ run, key a = k) ∧ ∀ b ∈ rest.head?, key b ≠ k := by
  obtain ⟨a, l, rfl⟩ := List.exists_cons_of_ne_nil hl
  refine ⟨key a, a :: l.takeWhile fun b => key b == key a, l.dropWhile fun b => key b == key a, ?_, by simp, ?_,
    ?_⟩
  · rw [List.cons_append, List.takeWhile_append_dropWhile]
  · intro b hb
    rcases List.mem_cons.1 hb with rfl | hb
    · rfl
    · exact beq_iff_eq.1 (List.mem_takeWhile_imp (p := fun b => key b == key a) hb)
  · intro b hb hk
    have := List.head?_dropWhile_not (fun b => key b == key a) l
    rw [Option.mem_def.1 hb] at this
    simp [hk] at this

variable {p : List α → Bool} {a : α}

/-- When `p` drops the runs of the key of `a`, an `a` in front changes nothing. -/
theorem filter_runs_cons (hdrop : ∀ g, g ≠ [] → (∀ b ∈ g, key b = key a) → p g = false) (l : List α) :
    (runs key (a :: l)).filter p = (runs key l).filter p := by
  have ha : ∀ b ∈ [a], key b = key a := List.forall_mem_singleton.2 rfl
  by_cases hl : l = []
  · subst hl
    rw [runs_of_forall (List.cons_ne_nil a []) ha, List.filter_cons_of_neg (by simp [hdrop [a] (by simp) ha])]
    rfl
  · obtain ⟨k, run, rest, rfl, hne, hrun, hrest⟩ := exists_run key hl
    rw [runs_append hne hrun hrest]
    by_cases hk : k = key a
    · -- it is in the first run, which is dropped
      subst hk
      have hcons : ∀ b ∈ a :: run, key b = key a := List.forall_mem_cons.2 ⟨rfl, hrun⟩
      rw [← List.cons_append, runs_append (List.cons_ne_nil a run) hcons hrest,
        List.filter_cons_of_neg (by simp [hdrop _ (List.cons_ne_nil a run) hcons]),
        List.filter_cons_of_neg (by simp [hdrop run hne hrun])]
    · -- it is a run of its own
      have hhead : ∀ b ∈ (run ++ rest).head?, key b ≠ key a := by
        intro b hb
        rw [List.head?_append_of_ne_nil _ hne] at hb
        rw [hrun b (List.mem_of_mem_head? hb)]
        exact hk
      rw [← List.singleton_append, runs_append (List.cons_ne_nil a []) ha hhead,
        List.filter_cons_of_neg (by simp [hdrop [a] (by simp) ha]), runs_append hne hrun hrest]

variable (key) in
/-- The runs cut a list where the key changes. -/
theorem runs_cutAt (l : List α) : CutAt key l (runs key l) := by
  induction hn : l.length using Nat.strongRecOn generalizing l with
  | _ n ih =>
    subst hn
    by_cases hl : l = []
    · subst hl
      exact ⟨rfl, by simp [runs], by simp [runs], List.isChain_nil⟩
    · obtain ⟨k, run, rest, rfl, hne, hrun, hrest⟩ := exists_run key hl
      have hlen : rest.length < (run ++ rest).length := by
        rw [List.length_append]
        exact Nat.lt_add_of_pos_left (List.length_pos_iff.2 hne)
      have hcut := ih _ hlen rest rfl
      rw [runs_append hne hrun hrest]
      refine ⟨by rw [List.flatten_cons, hcut.flatten], ?_, ?_, ?_⟩
      · exact List.forall_mem_cons.2 ⟨hne, hcut.nonempty⟩
      · exact List.forall_mem_cons.2 ⟨⟨k, hrun⟩, hcut.single⟩
      · refine List.IsChain.cons hcut.changes fun g hg a ha b hb => ?_
        -- the next run has the key of its first element
        have hmem : g ∈ runs key rest := List.mem_of_mem_head? hg
        obtain ⟨k', hk'⟩ := hcut.single g hmem
        obtain ⟨c, g', rfl⟩ := List.exists_cons_of_ne_nil (hcut.nonempty g hmem)
        have hhead : c ∈ rest.head? := by
          obtain ⟨gs, hgs⟩ : ∃ gs, runs key rest = (c :: g') :: gs := by
            cases hr : runs key rest with
            | nil => rw [hr] at hg; cases hg
            | cons x gs =>
              rw [hr] at hg
              cases hg
              exact ⟨gs, rfl⟩
          have hflat := hcut.flatten
          rw [hgs] at hflat
          rw [← hflat]
          rfl
        rw [hrun a ha, hk' b hb, ← hk' c List.mem_cons_self]
        exact (hrest c hhead).symm

omit [DecidableEq κ] in
/-- After a run the keys stand together exactly when its key does not occur again. -/
theorem contiguous_append (hne : run ≠ []) (hrun : ∀ a ∈ run, key a = k)
    (hrest : ∀ b ∈ rest.head?, key b ≠ k) :
    Contiguous key (run ++ rest) ↔ (∀ b ∈ rest, key b ≠ k) ∧ Contiguous key rest := by
  constructor
  · intro h
    constructor
    · intro b hb hk
      -- the last element of the run
      obtain ⟨run, a, rfl⟩ := List.eq_nil_or_concat run |>.resolve_left hne
      have ha : key a = k := hrun a (by simp)
      obtain ⟨c, hc, hkc⟩ := h run a rest (by simp) ⟨b, hb, hk.trans ha.symm⟩
      exact hrest c hc (hkc.trans ha)
    · rintro pre a post rfl hocc
      exact h (run ++ pre) a post (by simp) hocc
  · rintro ⟨hno, h⟩ pre a post hl ⟨b, hb, hk⟩
    rcases List.append_eq_append_iff.1 hl with ⟨as, rfl, has⟩ | ⟨as, rfl, has⟩
    · exact h as a post has ⟨b, hb, hk⟩
    · rcases as with _ | ⟨x, as⟩
      · exact h [] a post (by simpa using has.symm) ⟨b, hb, hk⟩
      · obtain ⟨rfl, rfl⟩ := List.cons.inj has
        have ha : key a = k := hrun a (by simp)
        rcases as with _ | ⟨c, as⟩
        · exact absurd (hk.trans ha) (hno b (by simpa using hb))
        · exact ⟨c, by simp, (hrun c (by simp)).trans ha.symm⟩

/-! ### Groups -/

theorem group_append (hrun : ∀ a ∈ run, key a = k) (k' : κ) :
    group key (run ++ rest) k' = if k' = k then run ++ group key rest k' else group key rest k' := by
  unfold group
  rw [List.filter_append]
  split
  · rename_i hk
    subst hk
    rw [List.filter_eq_self.2 fun a ha => beq_iff_eq.2 (hrun a ha)]
  · rename_i hk
    rw [List.filter_eq_nil_iff.2 fun a ha => by simp [hrun a ha, Ne.symm hk], List.nil_append]

/-- The runs are the groups exactly when the elements of each key stand together. -/
theorem runs_areGroups_iff (l : List α) : AreGroups key l (runs key l) ↔ Contiguous key l := by
  induction hn : l.length using Nat.strongRecOn generalizing l with
  | _ n ih =>
    subst hn
    by_cases hl : l = []
    · subst hl
      refine iff_of_true ⟨[], List.nodup_nil, by simp, rfl⟩ ?_
      intro pre a post h
      simp at h
    · obtain ⟨k, run, rest, rfl, hne, hrun, hrest⟩ := exists_run key hl
      have hlen : rest.length < (run ++ rest).length := by
        rw [List.length_append]
        exact Nat.lt_add_of_pos_left (List.length_pos_iff.2 hne)
      obtain ⟨a, ha⟩ := List.exists_mem_of_ne_nil run hne
      rw [contiguous_append hne hrun hrest, ← ih _ hlen rest rfl, runs_append hne hrun hrest]
      -- by induction the runs of the rest are its groups; the first run is a group if its key does not come back
      constructor
      · rintro ⟨ks, hnd, hks, heq⟩
        rcases ks with _ | ⟨k', ks⟩
        · cases heq
        · obtain ⟨hhead, htail⟩ := List.cons.inj heq
          obtain ⟨hnotin, htailnd⟩ := List.nodup_cons.1 hnd
          -- the first group is that of the first run
          obtain rfl : k = k' := by
            have hmem : a ∈ group key (run ++ rest) k' := hhead ▸ ha
            rw [← hrun a ha]
            exact beq_iff_eq.1 (List.mem_filter.1 hmem).2
          rw [group_append hrun, if_pos rfl, List.self_eq_append_right] at hhead
          have hno : ∀ b ∈ rest, key b ≠ k := fun b hb hk =>
            List.filter_eq_nil_iff.1 hhead b hb (beq_iff_eq.2 hk)
          refine ⟨hno, ks, htailnd, fun j => ⟨fun hj => ?_, ?_⟩, ?_⟩
          · obtain ⟨b, hb, hbj⟩ := (hks j).1 (List.mem_cons_of_mem _ hj)
            rcases List.mem_append.1 hb with hb | hb
            · exact absurd (hbj.symm.trans (hrun b hb) ▸ hj) hnotin
            · exact ⟨b, hb, hbj⟩
          · rintro ⟨b, hb, rfl⟩
            exact (List.mem_cons.1 ((hks _).2 ⟨b, List.mem_append_right _ hb, rfl⟩)).resolve_left (hno b hb)
          · rw [htail]
            refine List.map_congr_left fun j hj => ?_
            have hne : j ≠ k := fun hjk => hnotin (hjk ▸ hj)
            rw [group_append hrun, if_neg hne]
      · rintro ⟨hno, ks, hnd, hks, heq⟩
        have hnotin : k ∉ ks := fun hk => by
          obtain ⟨b, hb, hbk⟩ := (hks k).1 hk
          exact hno b hb hbk
        refine ⟨k :: ks, List.nodup_cons.2 ⟨hnotin, hnd⟩, fun j => ?_, ?_⟩
        · rw [List.mem_cons, hks]
          constructor
          · rintro (rfl | ⟨b, hb, hbj⟩)
            · exact ⟨a, List.mem_append_left _ ha, hrun a ha⟩
            · exact ⟨b, List.mem_append_right _ hb, hbj⟩
          · rintro ⟨b, hb, rfl⟩
            exact (List.mem_append.1 hb).imp (hrun b) fun hb => ⟨b, hb, rfl⟩
        · have hgroup : group key rest k = [] :=
            List.filter_eq_nil_iff.2 fun b hb hbk => hno b hb (beq_iff_eq.1 hbk)
          rw [List.map_cons, group_append hrun, if_pos rfl, hgroup, List.append_nil, heq]
          refine congrArg _ (List.map_congr_left fun j hj => ?_)
          have hne : j ≠ k := fun hjk => hnotin (hjk ▸ hj)
          rw [group_append hrun, if_neg hne]

/-! ### The heads of the runs -/

variable (key) in
omit [DecidableEq κ] in
/-- Each element that does not stand right behind one with its key satisfies `P`. -/
def Heads (P : α → Prop) (l : List α) : Prop :=
  ∀ pre a post, l = pre ++ a :: post → (∀ b ∈ pre.getLast?, key b ≠ key a) → P a

variable {P : α → Prop}

omit [DecidableEq κ] in
theorem heads_append (hne : run ≠ []) (hrun : ∀ a ∈ run, key a = k) (hrest : ∀ b ∈ rest.head?, key b ≠ k) :
    Heads key P (run ++ rest) ↔ (∀ a ∈ run.head?, P a) ∧ Heads key P rest := by
  constructor
  · intro h
    constructor
    · intro a ha
      obtain ⟨c, run, rfl⟩ := List.exists_cons_of_ne_nil hne
      cases ha
      exact h [] a (run ++ rest) rfl fun b hb => (by cases hb)
    · rintro pre a post rfl hlast
      refine h (run ++ pre) a post (by rw [List.append_assoc]) fun b hb => ?_
      rcases List.eq_nil_or_concat' pre with rfl | ⟨pre, c, rfl⟩
      · -- right behind the run
        rw [List.append_nil] at hb
        rw [hrun b (List.mem_of_getLast? hb)]
        exact (hrest a rfl).symm
      · rw [← List.append_assoc, List.getLast?_concat] at hb
        exact hlast b (by rwa [List.getLast?_concat])
  · rintro ⟨hhead, h⟩ pre a post hl hlast
    rcases List.append_eq_append_iff.1 hl with ⟨as, rfl, has⟩ | ⟨as, rfl, has⟩
    · refine h as a post has fun b hb => hlast b ?_
      obtain ⟨as, c, rfl⟩ := (List.eq_nil_or_concat' as).resolve_left fun h => (by subst h; cases hb)
      rw [List.getLast?_concat] at hb
      rw [← List.append_assoc, List.getLast?_concat]
      exact hb
    · rcases as with _ | ⟨x, as⟩
      · exact h [] a post (by simpa using has.symm) fun b hb => (by cases hb)
      · obtain ⟨rfl, -⟩ := List.cons.inj has
        rcases List.eq_nil_or_concat' pre with rfl | ⟨pre, c, rfl⟩
        · exact hhead a rfl
        · -- inside the run
          have hc := hlast c (List.getLast?_concat ..)
          exact absurd ((hrun c (by simp)).trans (hrun a (by simp)).symm) hc

omit [DecidableEq κ] in
/-- Elements behind the list change nothing about those in it. -/
theorem Heads.of_prefix {l l' : List α} (h : Heads key P l') (hpre : l <+: l') : Heads key P l := by
  obtain ⟨more, rfl⟩ := hpre
  rintro pre a post rfl hlast
  exact h pre a (post ++ more) (by rw [List.append_assoc, List.cons_append]) hlast

/-- The heads of the runs are the elements that do not stand right behind one with their key. -/
theorem heads_runs_iff (l : List α) : (∀ g ∈ runs key l, ∀ a ∈ g.head?, P a) ↔ Heads key P l := by
  induction hn : l.length using Nat.strongRecOn generalizing l with
  | _ n ih =>
    subst hn
    by_cases hl : l = []
    · subst hl
      refine iff_of_true (by simp [runs]) fun pre a post h => ?_
      simp at h
    · obtain ⟨k, run, rest, rfl, hne, hrun, hrest⟩ := exists_run key hl
      have hlen : rest.length < (run ++ rest).length := by
        rw [List.length_append]
        exact Nat.lt_add_of_pos_left (List.length_pos_iff.2 hne)
      rw [runs_append hne hrun hrest, List.forall_mem_cons, heads_append hne hrun hrest, ih _ hlen rest rfl]

omit [DecidableEq κ] in
/-- Going back from an element along its key leads to one that satisfies `P`. -/
theorem Heads.exists {l : List α} (h : Heads key P l) {pre post : List α} {a : α} (hl : l = pre ++ a :: post) :
    ∃ l₁ b l₂, pre ++ [a] = l₁ ++ b :: l₂ ∧ key b = key a ∧ P b := by
  induction pre using List.reverseRecOn generalizing a post with
  | nil => exact ⟨[], a, [], rfl, rfl, h [] a post hl fun b hb => (by cases hb)⟩
  | append_singleton pre c ih =>
    by_cases hc : key c = key a
    · rw [List.append_assoc] at hl
      obtain ⟨l₁, b, l₂, heq, hb, hP⟩ := ih hl
      exact ⟨l₁, b, l₂ ++ [a], by rw [heq]; simp, hb.trans hc, hP⟩
    · refine ⟨pre ++ [c], a, [], rfl, rfl, h (pre ++ [c]) a post hl fun b hb => ?_⟩
      rw [List.getLast?_concat] at hb
      cases hb
      exact hc

/-- When no two elements that satisfy `P` have the same key, the elements of each key stand together. -/
theorem Heads.contiguous {l : List α} (h : Heads key P l)
    (huniq : ∀ l₁ a l₂ b l₃, l = l₁ ++ a :: (l₂ ++ b :: l₃) → P a → P b → key a ≠ key b) : Contiguous key l := by
  rintro pre a post hl ⟨b, hb, hk⟩
  by_contra hno
  -- the next element with the key would satisfy `P`, as one before it does
  obtain ⟨mid, c, post', hpost, hmid, hc⟩ : ∃ mid c post', post = mid ++ c :: post' ∧
      (∀ x ∈ mid, key x ≠ key a) ∧ key c = key a := by
    have hfind : (post.find? fun x => key x == key a).isSome := List.find?_isSome.2 ⟨b, hb, beq_iff_eq.2 hk⟩
    obtain ⟨c, hc⟩ := Option.isSome_iff_exists.1 hfind
    obtain ⟨hkey, mid, post', hpost, hmid⟩ := List.find?_eq_some_iff_append.1 hc
    exact ⟨mid, c, post', hpost, fun x hx => by simpa using hmid x hx, beq_iff_eq.1 hkey⟩
  obtain ⟨l₁, d, l₂, heq, hd, hPd⟩ := h.exists hl
  have hPc : P c := by
    refine h (pre ++ a :: mid) c post' (by rw [hl, hpost]; simp) fun x hx => ?_
    rcases List.eq_nil_or_concat' mid with rfl | ⟨mid, y, rfl⟩
    · exact absurd ⟨c, by rw [hpost]; rfl, hc⟩ hno
    · have hlast : (pre ++ a :: (mid ++ [y])).getLast? = some y := by
        rw [← List.cons_append, ← List.append_assoc, List.getLast?_concat]
      rw [hlast] at hx
      cases hx
      rw [hc]
      exact hmid x (by simp)
  refine huniq l₁ d (l₂ ++ mid) c post' ?_ hPd hPc (hd.trans hc.symm)
  rw [hl, hpost, ← List.singleton_append, ← List.append_assoc, heq]
  simp

end Grouping
