import Anywise.Lib.Dict
import Mathlib.Logic.Function.Basic

/-!
# Dictionaries of list objects

Several dictionaries hold references to lists in a common heap, and lists are extended in place.  As long as no list
is held twice (`Separated`), each dictionary behaves as a dictionary of values, and what is done to one of them leaves
the others as they are: `get?_append` for one list, `get?_merge` for copies of all lists of another dictionary.
-/

/-- The list objects made so far, a reference being a place in the list, and the dictionaries that hold them. -/
structure Objects (ι K W : Type) where
  heap : List (List W)
  dicts : ι → Dict K Nat

namespace Objects

variable {ι K W : Type} [DecidableEq ι] [DecidableEq K]

/-! ### Operations -/

def empty : Objects ι K W := ⟨[], fun _ => .empty⟩

/-- The contents of a list object. -/
def read (s : Objects ι K W) (r : Nat) : List W := (s.heap[r]?).getD []

/-- `l.extend(ws)` -/
def extend (s : Objects ι K W) (r : Nat) (ws : List W) : Objects ι K W :=
  { s with heap := s.heap.set r (s.read r ++ ws) }

/-- A new list object. -/
def alloc (s : Objects ι K W) (ws : List W) : Nat × Objects ι K W := (s.heap.length, { s with heap := s.heap ++ [ws] })

/-- `d[k] = l` for the list object `r`. -/
def assign (s : Objects ι K W) (i : ι) (k : K) (r : Nat) : Objects ι K W :=
  { s with dicts := Function.update s.dicts i ((s.dicts i).set k r) }

/-- `d[k] = ws` for an absent key, `d[k].extend(ws)` for a present one. -/
def append (s : Objects ι K W) (i : ι) (k : K) (ws : List W) : Objects ι K W :=
  match (s.dicts i).get? k with
  | some r => s.extend r ws
  | none => (s.alloc ws).2.assign i k (s.alloc ws).1

/-- Copies of the lists of some items, in new objects. -/
def copies (s : Objects ι K W) : List (K × Nat) → Objects ι K W × List (K × Nat)
  | [] => (s, [])
  | (k, r) :: items =>
    let rest := (s.alloc (s.read r)).2.copies items
    (rest.1, (k, (s.alloc (s.read r)).1) :: rest.2)

/-- The list object `p.2` is stored under the key `p.1` if it is absent, and appended to the list there otherwise. -/
def store (i : ι) (s : Objects ι K W) (p : K × Nat) : Objects ι K W :=
  match (s.dicts i).get? p.1 with
  | some r => s.extend r (s.read p.2)
  | none => s.assign i p.1 p.2

/-- The lists of dictionary `j` are copied, then the copies are stored in dictionary `i`. -/
def merge (s : Objects ι K W) (i j : ι) : Objects ι K W :=
  let copied := s.copies (s.dicts j).items
  copied.2.foldl (store i) copied.1

/-! ### Contents -/

/-- A dictionary with the contents of its lists. -/
def view (s : Objects ι K W) (i : ι) : Dict K (List W) where
  items := (s.dicts i).items.map fun p => (p.1, s.read p.2)
  nodup := by
    rw [List.map_map]
    exact (s.dicts i).nodup

/-- All references are to lists that exist, and no list is held twice. -/
structure Separated (s : Objects ι K W) : Prop where
  exist : ∀ i k r, (s.dicts i).get? k = some r → r < s.heap.length
  apart : ∀ i j k l r, (s.dicts i).get? k = some r → (s.dicts j).get? l = some r → i = j ∧ k = l

omit [DecidableEq ι] in
theorem separated_empty : (empty : Objects ι K W).Separated where
  exist _ _ _ h := by cases h
  apart _ _ _ _ _ h := by cases h

section

variable {s : Objects ι K W} {i j : ι} {k : K} {r : Nat} {ws : List W}

omit [DecidableEq ι] in
theorem get?_view (s : Objects ι K W) (i : ι) (k : K) :
    (s.view i).get? k = ((s.dicts i).get? k).map s.read := by
  show Dict.lookup k ((s.dicts i).items.map fun p => (p.1, s.read p.2)) = (Dict.lookup k (s.dicts i).items).map s.read
  generalize (s.dicts i).items = items
  induction items with
  | nil => rfl
  | cons p items ih =>
    by_cases h : p.1 = k <;> simp [Dict.lookup, h, ih]

omit [DecidableEq ι] [DecidableEq K] in
theorem read_extend (hr : r < s.heap.length) (r' : Nat) :
    (s.extend r ws).read r' = if r = r' then s.read r ++ ws else s.read r' := by
  unfold extend read
  rw [List.getElem?_set]
  by_cases h : r = r'
  · subst h
    simp [hr]
  · simp [h]

omit [DecidableEq ι] [DecidableEq K] in
theorem read_alloc (hr : r ≤ s.heap.length) :
    (s.alloc ws).2.read r = if r = s.heap.length then ws else s.read r := by
  unfold alloc read
  by_cases h : r = s.heap.length
  · simp [h]
  · have hlt : r < s.heap.length := by omega
    simp [h, List.getElem?_append_left hlt]

/-! ### One list -/

/-- What `append` does to the contents. -/
theorem get?_append (hs : s.Separated) (i : ι) (k : K) (ws : List W) (j : ι) (l : K) :
    ((s.append i k ws).view j).get? l =
      if i = j ∧ k = l then some ((s.view i).getD k ++ ws) else (s.view j).get? l := by
  have hget : (s.view i).getD k = (((s.dicts i).get? k).map s.read).getD [] := by rw [Dict.getD, get?_view]
  rw [hget]
  unfold append
  cases hk : (s.dicts i).get? k with
  | some r =>
    have hr := hs.exist i k r hk
    show ((s.extend r ws).view j).get? l = _
    rw [get?_view, get?_view]
    show ((s.dicts j).get? l).map (s.extend r ws).read = _
    by_cases h : i = j ∧ k = l
    · obtain ⟨rfl, rfl⟩ := h
      simp [hk, read_extend hr]
    · rw [if_neg h]
      refine Option.map_congr fun r' hr' => ?_
      rw [read_extend hr, if_neg]
      rintro rfl
      exact h (hs.apart i j k l r hk hr')
  | none =>
    show (((s.alloc ws).2.assign i k (s.alloc ws).1).view j).get? l = _
    rw [get?_view, get?_view]
    show ((Function.update s.dicts i ((s.dicts i).set k s.heap.length) j).get? l).map (s.alloc ws).2.read = _
    have hold : ∀ j l, ((s.dicts j).get? l).map (s.alloc ws).2.read = ((s.dicts j).get? l).map s.read := by
      intro j l
      refine Option.map_congr fun r' hr' => ?_
      have hlt := hs.exist j l r' hr'
      rw [read_alloc (Nat.le_of_lt hlt), if_neg (Nat.ne_of_lt hlt)]
    by_cases hij : i = j
    · subst hij
      rw [Function.update_self, Dict.get?_set]
      by_cases hkl : k = l
      · simp [hkl, read_alloc (Nat.le_refl _)]
      · simp [hkl, hold]
    · rw [Function.update_of_ne (Ne.symm hij), hold]
      simp [hij]

theorem separated_append (hs : s.Separated) (i : ι) (k : K) (ws : List W) : (s.append i k ws).Separated := by
  unfold append
  cases hk : (s.dicts i).get? k with
  | some r => exact ⟨fun i k r h => by simpa [extend] using hs.exist i k r h, hs.apart⟩
  | none =>
    -- a key of the new dictionaries holds what it held, or the new list
    have hcases : ∀ j l r, (Function.update s.dicts i ((s.dicts i).set k s.heap.length) j).get? l = some r →
        ((s.dicts j).get? l = some r ∧ r < s.heap.length) ∨ (i = j ∧ k = l ∧ r = s.heap.length) := by
      intro j l r h
      by_cases hij : i = j
      · subst hij
        rw [Function.update_self, Dict.get?_set] at h
        by_cases hkl : k = l
        · rw [if_pos hkl] at h
          cases h
          exact Or.inr ⟨rfl, hkl, rfl⟩
        · rw [if_neg hkl] at h
          exact Or.inl ⟨h, hs.exist i l r h⟩
      · rw [Function.update_of_ne (Ne.symm hij)] at h
        exact Or.inl ⟨h, hs.exist j l r h⟩
    constructor
    · intro j l r h
      show r < (s.heap ++ [ws]).length
      rw [List.length_append, List.length_singleton]
      rcases hcases j l r h with ⟨-, hlt⟩ | ⟨-, -, rfl⟩ <;> omega
    · intro j j' l l' r h h'
      rcases hcases j l r h with ⟨h, hlt⟩ | ⟨rfl, rfl, hr⟩
      · rcases hcases j' l' r h' with ⟨h', -⟩ | ⟨-, -, hr'⟩
        · exact hs.apart j j' l l' r h h'
        · omega
      · rcases hcases j' l' r h' with ⟨-, hlt'⟩ | ⟨rfl, rfl, -⟩
        · omega
        · exact ⟨rfl, rfl⟩

/-! ### All lists of a dictionary -/

/-- A list object that no dictionary holds. -/
def Free (s : Objects ι K W) (r : Nat) : Prop := r < s.heap.length ∧ ∀ i k, (s.dicts i).get? k ≠ some r

/-- What storing a list does to the contents. -/
private theorem get?_store (hs : s.Separated) (i : ι) (p : K × Nat) (j : ι) (l : K) :
    ((store i s p).view j).get? l =
      if i = j ∧ p.1 = l then some ((s.view i).getD p.1 ++ s.read p.2) else (s.view j).get? l := by
  have hget : (s.view i).getD p.1 = (((s.dicts i).get? p.1).map s.read).getD [] := by rw [Dict.getD, get?_view]
  rw [hget, get?_view]
  unfold store
  cases hk : (s.dicts i).get? p.1 with
  | some r =>
    have hr := hs.exist i p.1 r hk
    show ((s.dicts j).get? l).map (s.extend r (s.read p.2)).read = _
    by_cases h : i = j ∧ p.1 = l
    · obtain ⟨rfl, rfl⟩ := h
      simp [hk, read_extend hr]
    · rw [if_neg h, get?_view]
      refine Option.map_congr fun r' hr' => ?_
      rw [read_extend hr, if_neg]
      rintro rfl
      exact h (hs.apart i j p.1 l r hk hr')
  | none =>
    show ((Function.update s.dicts i ((s.dicts i).set p.1 p.2) j).get? l).map s.read = _
    by_cases hij : i = j
    · subst hij
      rw [Function.update_self, Dict.get?_set, get?_view]
      by_cases hkl : p.1 = l <;> simp [hkl]
    · rw [Function.update_of_ne (Ne.symm hij), get?_view]
      simp [hij]

private theorem separated_store (hs : s.Separated) {p : K × Nat} (hp : s.Free p.2) (i : ι) :
    (store i s p).Separated := by
  unfold store
  cases hk : (s.dicts i).get? p.1 with
  | some r => exact ⟨fun i k r h => by simpa [extend] using hs.exist i k r h, hs.apart⟩
  | none =>
    have hcases : ∀ j l r, (Function.update s.dicts i ((s.dicts i).set p.1 p.2) j).get? l = some r →
        (s.dicts j).get? l = some r ∨ (i = j ∧ p.1 = l ∧ r = p.2) := by
      intro j l r h
      by_cases hij : i = j
      · subst hij
        rw [Function.update_self, Dict.get?_set] at h
        by_cases hkl : p.1 = l
        · rw [if_pos hkl] at h
          cases h
          exact Or.inr ⟨rfl, hkl, rfl⟩
        · rw [if_neg hkl] at h
          exact Or.inl h
      · rw [Function.update_of_ne (Ne.symm hij)] at h
        exact Or.inl h
    constructor
    · intro j l r h
      rcases hcases j l r h with h | ⟨-, -, rfl⟩
      · exact hs.exist j l r h
      · exact hp.1
    · intro j j' l l' r h h'
      rcases hcases j l r h with h | ⟨rfl, rfl, rfl⟩
      · rcases hcases j' l' r h' with h' | ⟨-, -, rfl⟩
        · exact hs.apart j j' l l' r h h'
        · exact absurd h (hp.2 j l)
      · rcases hcases j' l' p.2 h' with h' | ⟨rfl, rfl, -⟩
        · exact absurd h' (hp.2 j' l')
        · exact ⟨rfl, rfl⟩

/-- Another free list stays free and keeps its contents. -/
private theorem free_store (hs : s.Separated) {p : K × Nat} (i : ι) {r : Nat} (hr : s.Free r) (hne : r ≠ p.2) :
    (store i s p).Free r ∧ (store i s p).read r = s.read r := by
  unfold store
  cases hk : (s.dicts i).get? p.1 with
  | some r' =>
    have hlt := hs.exist i p.1 r' hk
    have hrr : r' ≠ r := by
      rintro rfl
      exact hr.2 i p.1 hk
    refine ⟨⟨by simpa [extend] using hr.1, hr.2⟩, ?_⟩
    show (s.extend r' (s.read p.2)).read r = _
    rw [read_extend hlt, if_neg hrr]
  | none =>
    refine ⟨⟨hr.1, fun j l h => ?_⟩, rfl⟩
    have h : (Function.update s.dicts i ((s.dicts i).set p.1 p.2) j).get? l = some r := h
    by_cases hij : i = j
    · subst hij
      rw [Function.update_self, Dict.get?_set] at h
      by_cases hkl : p.1 = l
      · rw [if_pos hkl] at h
        exact hne (Option.some.inj h).symm
      · rw [if_neg hkl] at h
        exact hr.2 i l h
    · rw [Function.update_of_ne (Ne.symm hij)] at h
      exact hr.2 j l h

/-- Free lists are stored one after another. -/
private theorem foldl_store (hs : s.Separated) (i : ι) {ps : List (K × Nat)} (hkeys : (ps.map Prod.fst).Nodup)
    (hrefs : (ps.map Prod.snd).Nodup) (hfree : ∀ p ∈ ps, s.Free p.2) :
    (ps.foldl (store i) s).Separated ∧ ∀ j l, ((ps.foldl (store i) s).view j).get? l =
      if i = j then ((Dict.lookup l ps).map fun r => (s.view i).getD l ++ s.read r).or ((s.view i).get? l)
      else (s.view j).get? l := by
  induction ps generalizing s with
  | nil =>
    refine ⟨hs, fun j l => ?_⟩
    by_cases hij : i = j
    · subst hij
      simp [Dict.lookup]
    · simp [hij]
  | cons p ps ih =>
    rw [List.map_cons, List.nodup_cons] at hkeys hrefs
    have hp := hfree p List.mem_cons_self
    have hrest : ∀ q ∈ ps, (store i s p).Free q.2 ∧ (store i s p).read q.2 = s.read q.2 := by
      intro q hq
      refine free_store hs i (hfree q (List.mem_cons_of_mem _ hq)) fun h => hrefs.1 ?_
      rw [← h]
      exact List.mem_map_of_mem hq
    obtain ⟨hsep, hget⟩ := ih (separated_store hs hp i) hkeys.2 hrefs.2 fun q hq => (hrest q hq).1
    refine ⟨hsep, fun j l => ?_⟩
    rw [List.foldl_cons, hget]
    by_cases hij : i = j
    · subst hij
      rw [if_pos rfl, if_pos rfl, Dict.getD, get?_store hs]
      by_cases hkl : p.1 = l
      · subst hkl
        have hno : Dict.lookup p.1 ps = none := Dict.lookup_eq_none.2 hkeys.1
        simp [Dict.lookup, hno]
      · simp only [Dict.lookup, hkl, and_false, ↓reduceIte]
        cases hl : Dict.lookup l ps with
        | none => rfl
        | some r =>
          have hmem : (l, r) ∈ ps := Dict.mem_of_lookup hl
          simp only [(hrest (l, r) hmem).2, Option.map_some, Option.some_or]
          rfl
    · simp only [hij, ↓reduceIte]
      rw [get?_store hs]
      simp [hij]

omit [DecidableEq ι] [DecidableEq K] in
private theorem read_of_isPrefix {t : Objects ι K W} (h : s.heap <+: t.heap) (hr : r < s.heap.length) :
    t.read r = s.read r := by
  obtain ⟨ws, hws⟩ := h
  unfold read
  rw [← hws, List.getElem?_append_left hr]

omit [DecidableEq ι] in
/-- The copies are new lists with the contents of the originals. -/
private theorem copies_spec (items : List (K × Nat)) (hex : ∀ p ∈ items, p.2 < s.heap.length) :
    (s.copies items).1.dicts = s.dicts ∧ s.heap <+: (s.copies items).1.heap ∧
      (s.copies items).2.map Prod.fst = items.map Prod.fst ∧ ((s.copies items).2.map Prod.snd).Nodup ∧
      (∀ p ∈ (s.copies items).2, s.heap.length ≤ p.2 ∧ p.2 < (s.copies items).1.heap.length) ∧
      ∀ l, (Dict.lookup l (s.copies items).2).map (s.copies items).1.read = (Dict.lookup l items).map s.read := by
  induction items generalizing s with
  | nil => exact ⟨rfl, List.prefix_rfl, rfl, List.nodup_nil, (by intro p hp; cases hp), fun l => rfl⟩
  | cons p items ih =>
    obtain ⟨k, r⟩ := p
    have hlen : (s.alloc (s.read r)).2.heap.length = s.heap.length + 1 := by simp [alloc]
    have hpre : s.heap <+: (s.alloc (s.read r)).2.heap := List.prefix_append _ _
    obtain ⟨hd, hh, hkeys, hrefs, hfree, hread⟩ := ih (s := (s.alloc (s.read r)).2) fun p hp => by
      have := hex p (List.mem_cons_of_mem _ hp)
      omega
    refine ⟨hd, hpre.trans hh, congrArg (k :: ·) hkeys, ?_, ?_, fun l => ?_⟩
    · refine List.nodup_cons.2 ⟨fun hmem => ?_, hrefs⟩
      obtain ⟨p, hp, heq⟩ := List.mem_map.1 hmem
      have hle := (hfree p hp).1
      have heq : p.2 = s.heap.length := heq
      omega
    · intro p hp
      rcases List.mem_cons.1 hp with rfl | hp
      · refine ⟨Nat.le_refl _, ?_⟩
        have hlt : s.heap.length < ((s.alloc (s.read r)).2.copies items).1.heap.length := by
          have := hh.length_le
          omega
        exact hlt
      · have := (hfree p hp).1
        exact ⟨by omega, (hfree p hp).2⟩
    · show (Dict.lookup l ((k, s.heap.length) :: _)).map _ = (Dict.lookup l ((k, r) :: items)).map s.read
      by_cases hkl : k = l
      · -- the copy made first
        have hnew : (s.alloc (s.read r)).2.read s.heap.length = s.read r := by
          rw [read_alloc (Nat.le_refl _), if_pos rfl]
        simp only [Dict.lookup, hkl, ↓reduceIte, Option.map_some, Option.some.injEq]
        exact (read_of_isPrefix hh (by omega)).trans hnew
      · simp only [Dict.lookup, hkl, ↓reduceIte]
        refine (hread l).trans (Option.map_congr fun r' hr' => ?_)
        have hlt : r' < s.heap.length := hex (l, r') (List.mem_cons_of_mem _ (Dict.mem_of_lookup hr'))
        exact read_of_isPrefix hpre hlt

private theorem merge_spec (hs : s.Separated) (i j : ι) :
    (s.merge i j).Separated ∧ ∀ j' l, ((s.merge i j).view j').get? l =
      if i = j' then (((s.view j).get? l).map fun ws => (s.view i).getD l ++ ws).or ((s.view i).get? l)
      else (s.view j').get? l := by
  obtain ⟨hd, hh, hkeys, hrefs, hfree, hread⟩ := copies_spec (s := s) (s.dicts j).items fun p hp =>
    hs.exist j p.1 p.2 (Dict.mem_items.1 hp)
  generalize hc : s.copies (s.dicts j).items = c at hd hh hkeys hrefs hfree hread
  have hview : ∀ i l, (c.1.view i).get? l = (s.view i).get? l := by
    intro i l
    rw [get?_view, get?_view, hd]
    exact Option.map_congr fun r hr => read_of_isPrefix hh (hs.exist i l r hr)
  have hsep : c.1.Separated := by
    refine ⟨fun i k r h => ?_, fun i j k l r h h' => ?_⟩
    · rw [hd] at h
      exact Nat.lt_of_lt_of_le (hs.exist i k r h) hh.length_le
    · rw [hd] at h h'
      exact hs.apart i j k l r h h'
  have hnew : ∀ p ∈ c.2, c.1.Free p.2 := by
    intro p hp
    refine ⟨(hfree p hp).2, fun i k h => ?_⟩
    rw [hd] at h
    have hlt := hs.exist i k p.2 h
    have hge := (hfree p hp).1
    omega
  obtain ⟨hsep', hget⟩ := foldl_store hsep i (hkeys ▸ (s.dicts j).nodup) hrefs hnew
  have hmerge : s.merge i j = c.2.foldl (store i) c.1 := by
    unfold merge
    rw [hc]
  rw [hmerge]
  refine ⟨hsep', fun j' l => ?_⟩
  rw [hget, hview, hview]
  have hlookup : (s.view j).get? l = (Dict.lookup l c.2).map c.1.read := by
    rw [hread, get?_view]
    rfl
  rw [hlookup, Option.map_map]
  have hgetD : (c.1.view i).getD l = (s.view i).getD l := by rw [Dict.getD, Dict.getD, hview]
  rw [hgetD]
  rfl

theorem separated_merge (hs : s.Separated) (i j : ι) : (s.merge i j).Separated := (merge_spec hs i j).1

/-- What `merge` does to the contents. -/
theorem get?_merge (hs : s.Separated) (i j j' : ι) (l : K) :
    ((s.merge i j).view j').get? l =
      if i = j' then (((s.view j).get? l).map fun ws => (s.view i).getD l ++ ws).or ((s.view i).get? l)
      else (s.view j').get? l := (merge_spec hs i j).2 j' l

end

end Objects
