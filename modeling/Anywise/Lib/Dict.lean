import Mathlib.Data.List.Nodup

/-!
# Insertion-ordered dictionaries

A dictionary keeps its items in insertion order and each key once, as `dict` does in Python: assigning to a
present key replaces the value in place, assigning to an absent key appends an item.  On top of it stand the two
merges used with such dictionaries: `update`, where the later item wins, and `extend` for dictionaries of lists,
where an absent key reads as the empty list.
-/

/-- A dictionary: its items in insertion order, each key once. -/
structure Dict (K V : Type) where
  items : List (K × V)
  nodup : (items.map Prod.fst).Nodup

namespace Dict

variable {K V : Type} [DecidableEq K]

/-! ### Items -/

/-- The value of `k` in a list of items. -/
def lookup (k : K) : List (K × V) → Option V
  | [] => none
  | (j, v) :: l => if j = k then some v else lookup k l

/-- Assignment to `k` in a list of items. -/
def assign (k : K) (v : V) : List (K × V) → List (K × V)
  | [] => [(k, v)]
  | (j, w) :: l => if j = k then (k, v) :: l else (j, w) :: assign k v l

theorem lookup_assign (k : K) (v : V) (l : List (K × V)) (j : K) :
    lookup j (assign k v l) = if k = j then some v else lookup j l := by
  induction l with
  | nil => rfl
  | cons p l ih =>
    obtain ⟨i, w⟩ := p
    by_cases h : i = k
    · subst h
      by_cases hj : i = j <;> simp [assign, lookup, hj]
    · by_cases hj : i = j
      · subst hj
        simp [assign, lookup, h, Ne.symm h]
      · simp [assign, lookup, h, hj, ih]

theorem mem_keys_assign {k : K} {v : V} {l : List (K × V)} {j : K} :
    j ∈ (assign k v l).map Prod.fst ↔ j = k ∨ j ∈ l.map Prod.fst := by
  induction l with
  | nil => simp [assign]
  | cons p l ih =>
    obtain ⟨i, w⟩ := p
    by_cases h : i = k
    · subst h
      simp [assign]
    · simp only [assign, h, ↓reduceIte, List.map_cons, List.mem_cons, ih]
      exact or_left_comm

theorem assign_nodup {k : K} {v : V} {l : List (K × V)} (h : (l.map Prod.fst).Nodup) :
    ((assign k v l).map Prod.fst).Nodup := by
  induction l with
  | nil => simp [assign]
  | cons p l ih =>
    obtain ⟨i, w⟩ := p
    rw [List.map_cons, List.nodup_cons] at h
    by_cases hk : i = k
    · subst hk
      simpa [assign] using h
    · simp only [assign, hk, ↓reduceIte, List.map_cons, List.nodup_cons]
      refine ⟨fun hm => ?_, ih h.2⟩
      rcases mem_keys_assign.1 hm with rfl | hm
      · exact hk rfl
      · exact h.1 hm

theorem lookup_eq_none {k : K} {l : List (K × V)} : lookup k l = none ↔ k ∉ l.map Prod.fst := by
  induction l with
  | nil => simp [lookup]
  | cons p l ih =>
    obtain ⟨i, w⟩ := p
    by_cases h : i = k
    · simp [lookup, h]
    · simp [lookup, h, ih, Ne.symm h]

theorem mem_of_lookup {k : K} {v : V} {l : List (K × V)} (h : lookup k l = some v) : (k, v) ∈ l := by
  induction l with
  | nil => cases h
  | cons p l ih =>
    obtain ⟨i, w⟩ := p
    by_cases hk : i = k
    · simp only [lookup, hk, ↓reduceIte, Option.some.injEq] at h
      simp [hk, h]
    · simp only [lookup, hk, ↓reduceIte] at h
      exact List.mem_cons_of_mem _ (ih h)

theorem lookup_of_mem {k : K} {v : V} {l : List (K × V)} (hl : (l.map Prod.fst).Nodup) (h : (k, v) ∈ l) :
    lookup k l = some v := by
  induction l with
  | nil => cases h
  | cons p l ih =>
    obtain ⟨i, w⟩ := p
    rw [List.map_cons, List.nodup_cons] at hl
    rcases List.mem_cons.1 h with h | h
    · cases h
      simp [lookup]
    · have : i ≠ k := by
        rintro rfl
        exact hl.1 (List.mem_map.2 ⟨_, h, rfl⟩)
      simp [lookup, this, ih hl.2 h]

/-! ### Dictionaries -/

def empty : Dict K V := ⟨[], List.nodup_nil⟩

def get? (d : Dict K V) (k : K) : Option V := lookup k d.items

def set (d : Dict K V) (k : K) (v : V) : Dict K V := ⟨assign k v d.items, assign_nodup d.nodup⟩

/-- `d.update(l)`: the items of `l` are assigned in order. -/
def update (d : Dict K V) (l : List (K × V)) : Dict K V := l.foldl (fun d p => d.set p.1 p.2) d

@[simp]
theorem get?_empty (k : K) : (empty : Dict K V).get? k = none := rfl

theorem get?_set (d : Dict K V) (k : K) (v : V) (j : K) :
    (d.set k v).get? j = if k = j then some v else d.get? j := lookup_assign k v d.items j

theorem mem_items {d : Dict K V} {k : K} {v : V} : (k, v) ∈ d.items ↔ d.get? k = some v :=
  ⟨lookup_of_mem d.nodup, mem_of_lookup⟩

theorem assign_of_notMem {k : K} (v : V) {l : List (K × V)} (h : k ∉ l.map Prod.fst) :
    assign k v l = l ++ [(k, v)] := by
  induction l with
  | nil => rfl
  | cons p l ih =>
    obtain ⟨i, w⟩ := p
    rw [List.map_cons, List.mem_cons, not_or] at h
    rw [assign, if_neg (Ne.symm h.1), ih h.2, List.cons_append]

/-- New keys are appended. -/
theorem items_update {d : Dict K V} {l : List (K × V)} (h : ((d.items ++ l).map Prod.fst).Nodup) :
    (d.update l).items = d.items ++ l := by
  induction l generalizing d with
  | nil => rw [List.append_nil, update, List.foldl_nil]
  | cons p l ih =>
    obtain ⟨k, v⟩ := p
    have hk : k ∉ d.items.map Prod.fst := by
      rw [List.map_append, List.nodup_append] at h
      exact fun hm => h.2.2 k hm k List.mem_cons_self rfl
    have hset : (d.set k v).items = d.items ++ [(k, v)] := assign_of_notMem v hk
    show ((d.set k v).update l).items = _
    rw [ih (by rw [hset]; simpa using h), hset, List.append_assoc, List.singleton_append]

/-- The last item of `l` with key `k`. -/
def lastOf (k : K) : List (K × V) → Option V
  | [] => none
  | (j, v) :: l => (lastOf k l).or (if j = k then some v else none)

theorem get?_update (d : Dict K V) (l : List (K × V)) (k : K) :
    (d.update l).get? k = (lastOf k l).or (d.get? k) := by
  induction l generalizing d with
  | nil => rfl
  | cons p l ih =>
    obtain ⟨j, v⟩ := p
    show ((d.set j v).update l).get? k = _
    rw [ih, get?_set, lastOf]
    cases lastOf k l <;> by_cases h : j = k <;> simp [h]

theorem lastOf_eq_lookup {k : K} {l : List (K × V)} (hl : (l.map Prod.fst).Nodup) :
    lastOf k l = lookup k l := by
  induction l with
  | nil => rfl
  | cons p l ih =>
    obtain ⟨j, v⟩ := p
    rw [List.map_cons, List.nodup_cons] at hl
    rw [lastOf, ih hl.2]
    by_cases h : j = k
    · subst h
      simp [lookup, lookup_eq_none.2 hl.1]
    · simp [lookup, h]

/-- Updating with the items of another dictionary: the other one wins. -/
theorem get?_update_items (d e : Dict K V) (k : K) :
    (d.update e.items).get? k = (e.get? k).or (d.get? k) := by
  rw [get?_update, lastOf_eq_lookup e.nodup]; rfl

theorem lastOf_isSome {k : K} {l : List (K × V)} : (lastOf k l).isSome ↔ ∃ v, (k, v) ∈ l := by
  induction l with
  | nil => simp [lastOf]
  | cons p l ih =>
    obtain ⟨j, v⟩ := p
    rw [lastOf, Option.isSome_or, Bool.or_eq_true, ih]
    by_cases h : j = k
    · subst h
      simp
    · simp [h, Ne.symm h]

theorem mem_of_lastOf {k : K} {v : V} {l : List (K × V)} (h : lastOf k l = some v) : (k, v) ∈ l := by
  induction l with
  | nil => cases h
  | cons p l ih =>
    obtain ⟨j, w⟩ := p
    rw [lastOf, Option.or_eq_some_iff] at h
    rcases h with h | ⟨-, h⟩
    · exact List.mem_cons_of_mem _ (ih h)
    · split at h
      · rename_i hj
        cases h
        simp [hj]
      · cases h

/-- The items of `d` at the given keys. -/
def pick (d : Dict K V) (ks : List K) : List (K × V) := ks.filterMap fun k => (d.get? k).map fun v => (k, v)

theorem mem_pick {d : Dict K V} {ks : List K} {k : K} {v : V} :
    (k, v) ∈ d.pick ks ↔ k ∈ ks ∧ d.get? k = some v := by
  unfold pick
  rw [List.mem_filterMap]
  constructor
  · rintro ⟨j, hj, h⟩
    obtain ⟨w, hw, heq⟩ := Option.map_eq_some_iff.1 h
    cases heq
    exact ⟨hj, hw⟩
  · rintro ⟨hk, hv⟩
    exact ⟨k, hk, by rw [hv]; rfl⟩

theorem lastOf_pick (d : Dict K V) {ks : List K} {k : K} (hk : k ∈ ks) : lastOf k (d.pick ks) = d.get? k := by
  cases hget : d.get? k with
  | none =>
    have hno : ¬ (lastOf k (d.pick ks)).isSome := by
      rw [lastOf_isSome]
      rintro ⟨v, hv⟩
      rw [(mem_pick.1 hv).2] at hget
      cases hget
    exact Option.not_isSome_iff_eq_none.1 hno
  | some v =>
    have hsome : (lastOf k (d.pick ks)).isSome := lastOf_isSome.2 ⟨v, mem_pick.2 ⟨hk, hget⟩⟩
    obtain ⟨w, hw⟩ := Option.isSome_iff_exists.1 hsome
    have heq := (mem_pick.1 (mem_of_lastOf hw)).2
    rw [hw, ← heq, hget]

theorem lastOf_append (k : K) (l l' : List (K × V)) : lastOf k (l ++ l') = (lastOf k l').or (lastOf k l) := by
  induction l with
  | nil => simp [lastOf]
  | cons p l ih => rw [List.cons_append, lastOf, ih, lastOf, Option.or_assoc]

theorem lastOf_concat (k : K) (v : V) (l : List (K × V)) : lastOf k (l ++ [(k, v)]) = some v := by
  induction l with
  | nil => simp [lastOf]
  | cons p l ih => rw [List.cons_append, lastOf, ih, Option.some_or]

/-! ### Dictionaries of lists -/

section Lists

variable {W : Type}

/-- Reading a `defaultdict(list)`. -/
def getD (d : Dict K (List W)) (k : K) : List W := (d.get? k).getD []

/-- `d[k].extend(ws)` on a `defaultdict(list)`. -/
def extend (d : Dict K (List W)) (k : K) (ws : List W) : Dict K (List W) := d.set k (d.getD k ++ ws)

/-- Reading `d[k]` on a `defaultdict(list)` inserts the key. -/
def touch (d : Dict K (List W)) (k : K) : Dict K (List W) :=
  match d.get? k with
  | some _ => d
  | none => d.set k []

@[simp]
theorem getD_empty (k : K) : (empty : Dict K (List W)).getD k = [] := rfl

theorem getD_extend (d : Dict K (List W)) (k : K) (ws : List W) (j : K) :
    (d.extend k ws).getD j = if k = j then d.getD j ++ ws else d.getD j := by
  unfold extend getD
  rw [get?_set]
  by_cases h : k = j <;> simp [h]

@[simp]
theorem getD_touch (d : Dict K (List W)) (k j : K) : (d.touch k).getD j = d.getD j := by
  unfold touch
  split
  · rfl
  · rename_i h
    unfold getD
    rw [get?_set]
    by_cases hj : k = j
    · subst hj
      simp [h]
    · simp [hj]

/-- `del d[k]` -/
def erase (d : Dict K (List W)) (k : K) : Dict K (List W) where
  items := d.items.filter fun p => decide (p.1 ≠ k)
  nodup := d.nodup.sublist (List.filter_sublist.map _)

theorem get?_erase (d : Dict K (List W)) (k j : K) : (d.erase k).get? j = if k = j then none else d.get? j := by
  have hlookup : ∀ l : List (K × List W), lookup j (l.filter fun p => decide (p.1 ≠ k)) =
      if k = j then none else lookup j l := by
    intro l
    induction l with
    | nil => simp [lookup]
    | cons p l ih =>
      obtain ⟨i, ws⟩ := p
      by_cases hik : i = k
      · subst hik
        simp only [ne_eq, decide_not, List.filter_cons, decide_true, Bool.not_true, Bool.false_eq_true, ↓reduceIte,
          lookup]
        by_cases hij : i = j <;> simpa [hij] using ih
      · by_cases hij : i = j
        · subst hij
          simp [lookup, hik, Ne.symm hik]
        · simpa [lookup, hik, hij] using ih
  exact hlookup d.items

theorem getD_erase (d : Dict K (List W)) (k j : K) : (d.erase k).getD j = if k = j then [] else d.getD j := by
  rw [getD, get?_erase]
  split <;> rfl

/-- A dictionary has one item at most if every key is `k`. -/
theorem length_items_le_one {d : Dict K (List W)} {k : K} (h : ∀ j, (d.get? j).isSome → j = k) :
    d.items.length ≤ 1 := by
  have hkeys : ∀ p ∈ d.items, p.1 = k := by
    intro p hp
    apply h
    rw [mem_items.1 hp]
    rfl
  have hnodup := d.nodup
  rcases hitems : d.items with _ | ⟨p, _ | ⟨q, items⟩⟩
  · exact Nat.zero_le 1
  · exact Nat.le_refl 1
  · -- two items would have the same key
    rw [hitems] at hkeys hnodup
    have hpq : p.1 = q.1 := (hkeys p (by simp)).trans (hkeys q (by simp)).symm
    exact absurd hnodup (by simp [hpq])

/-- Appending one entry at each key of a list of distinct keys. -/
theorem getD_foldl_extend (ks : List K) (f : K → W) (hks : ks.Nodup) (d : Dict K (List W)) (j : K) :
    (ks.foldl (fun d k => d.extend k [f k]) d).getD j = d.getD j ++ if j ∈ ks then [f j] else [] := by
  induction ks generalizing d with
  | nil => simp
  | cons k ks ih =>
    rw [List.nodup_cons] at hks
    rw [List.foldl_cons, ih hks.2, getD_extend]
    by_cases h : k = j
    · subst h
      simp [hks.1]
    · simp [h, Ne.symm h]

/-- Appending each element of a list at its own key. -/
theorem getD_foldl_extend_key (f : W → K) (l : List W) (d : Dict K (List W)) (k : K) :
    (l.foldl (fun d x => d.extend (f x) [x]) d).getD k = d.getD k ++ l.filter fun x => decide (f x = k) := by
  induction l generalizing d with
  | nil => simp
  | cons x l ih =>
    rw [List.foldl_cons, ih, getD_extend]
    by_cases h : f x = k <;> simp [h]

theorem get?_foldl_extend_key (f : W → K) (l : List W) (d : Dict K (List W)) (k : K) :
    (l.foldl (fun d x => d.extend (f x) [x]) d).get? k =
      if k ∈ l.map f then some (d.getD k ++ l.filter fun x => decide (f x = k)) else d.get? k := by
  induction l generalizing d with
  | nil => rfl
  | cons x l ih =>
    rw [List.foldl_cons, ih, getD_extend, extend, get?_set]
    by_cases h : f x = k
    · subst h
      by_cases hl : f x ∈ l.map f
      · simp [hl]
      · have hno : (l.filter fun y => decide (f y = f x)) = [] := by
          rw [List.filter_eq_nil_iff]
          exact fun y hy hyx => hl (List.mem_map.2 ⟨y, hy, of_decide_eq_true hyx⟩)
        simp [hl, hno]
    · simp [h, Ne.symm h]

/-- Appending the lists of another dictionary. -/
theorem get?_foldl_extend_items (d e : Dict K (List W)) (k : K) :
    (e.items.foldl (fun d p => d.extend p.1 p.2) d).get? k =
      ((e.get? k).map fun ws => d.getD k ++ ws).or (d.get? k) := by
  obtain ⟨l, hl⟩ := e
  show _ = ((lookup k l).map fun ws => d.getD k ++ ws).or (d.get? k)
  induction l generalizing d with
  | nil => simp [lookup]
  | cons p l ih =>
    obtain ⟨j, ws⟩ := p
    rw [List.map_cons, List.nodup_cons] at hl
    rw [List.foldl_cons, ih _ hl.2, getD_extend, extend, get?_set]
    by_cases h : j = k
    · subst h
      have hno : lookup j l = none := lookup_eq_none.2 hl.1
      simp [lookup, hno]
    · simp [lookup, h]

theorem getD_foldl_extend_items (d e : Dict K (List W)) (k : K) :
    (e.items.foldl (fun d p => d.extend p.1 p.2) d).getD k = d.getD k ++ e.getD k := by
  rw [getD, get?_foldl_extend_items, getD, getD]
  cases e.get? k <;> simp

/-- No key holds the empty list. -/
def Filled (d : Dict K (List W)) : Prop := ∀ k ws, d.get? k = some ws → ws ≠ []

theorem filled_empty : (empty : Dict K (List W)).Filled := fun k ws h => by cases h

theorem Filled.extend {d : Dict K (List W)} (h : d.Filled) (k : K) {ws : List W} (hws : ws ≠ []) :
    (d.extend k ws).Filled := by
  intro j us hj
  rw [Dict.extend, get?_set] at hj
  by_cases hk : k = j
  · rw [if_pos hk] at hj
    cases hj
    exact List.append_ne_nil_of_right_ne_nil _ hws
  · rw [if_neg hk] at hj
    exact h j us hj

theorem Filled.get?_eq_none {d : Dict K (List W)} (h : d.Filled) {k : K} : d.get? k = none ↔ d.getD k = [] := by
  unfold getD
  cases hk : d.get? k with
  | none => simp
  | some ws =>
    have hne : ws ≠ [] := h k ws hk
    simp [hne]

/-- The value lists of the items whose key satisfies `p`, when `k` is the only key that does. -/
theorem flatMap_items_filter (d : Dict K (List W)) (p : K → Bool) (k : K)
    (hp : ∀ q ∈ d.items, p q.1 = true ↔ q.1 = k) :
    (d.items.filter fun q => p q.1).flatMap Prod.snd = d.getD k := by
  obtain ⟨l, hl⟩ := d
  simp only [getD, get?] at hp ⊢
  induction l with
  | nil => rfl
  | cons q l ih =>
    obtain ⟨j, ws⟩ := q
    rw [List.map_cons, List.nodup_cons] at hl
    have ih := ih hl.2 fun q hq => hp q (List.mem_cons_of_mem _ hq)
    have hj := hp (j, ws) List.mem_cons_self
    by_cases h : j = k
    · subst h
      have hno : lookup j l = none := lookup_eq_none.2 hl.1
      rw [hno] at ih
      simp only [hj.2 rfl, List.filter_cons, ↓reduceIte, List.flatMap_cons, ih, lookup]
      simp
    · have hpj : p j = false := by simpa [h] using hj
      simp only [List.filter_cons, hpj, Bool.false_eq_true, ↓reduceIte, lookup, h]
      exact ih

end Lists

end Dict
