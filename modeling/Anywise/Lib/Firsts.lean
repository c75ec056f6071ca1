import Mathlib.Data.List.Nodup

/-!
# First occurrences

Of the elements of a list that have a key in common only the first one is kept, unless its key has been seen before
the list begins.  This is what a store makes of the elements when it takes each key once.
-/

namespace Firsts

variable {α κ : Type} [DecidableEq κ] (key : α → κ)

/-- The elements of `l` that have a key which is neither in `seen` nor that of an element before. -/
def firstsFrom (seen : List κ) : List α → List α
  | [] => []
  | a :: l => if key a ∈ seen then firstsFrom seen l else a :: firstsFrom (key a :: seen) l

/-- The first element of each key. -/
def firsts (l : List α) : List α := firstsFrom key [] l

variable {key}

/-- Only what is in `seen` counts. -/
theorem firstsFrom_congr {seen seen' : List κ} (h : ∀ k, k ∈ seen ↔ k ∈ seen') (l : List α) :
    firstsFrom key seen l = firstsFrom key seen' l := by
  induction l generalizing seen seen' with
  | nil => rfl
  | cons a l ih =>
    have hcons : ∀ k, k ∈ key a :: seen ↔ k ∈ key a :: seen' := by
      intro k
      simp [h k]
    rw [firstsFrom, firstsFrom, ih h, ih hcons]
    simp only [h]

theorem firstsFrom_sublist (seen : List κ) (l : List α) : (firstsFrom key seen l).Sublist l := by
  induction l generalizing seen with
  | nil => exact .slnil
  | cons a l ih =>
    rw [firstsFrom]
    split
    · exact (ih seen).cons a
    · exact (ih _).cons_cons a

theorem mem_firstsFrom {seen : List κ} {l : List α} {a : α} (ha : a ∈ firstsFrom key seen l) :
    a ∈ l ∧ key a ∉ seen := by
  induction l generalizing seen with
  | nil => cases ha
  | cons b l ih =>
    rw [firstsFrom] at ha
    split at ha
    · obtain ⟨hmem, hno⟩ := ih ha
      exact ⟨List.mem_cons_of_mem b hmem, hno⟩
    · rename_i hb
      rcases List.mem_cons.1 ha with rfl | ha
      · exact ⟨List.mem_cons_self, hb⟩
      · obtain ⟨hmem, hno⟩ := ih ha
        exact ⟨List.mem_cons_of_mem b hmem, fun hseen => hno (List.mem_cons_of_mem _ hseen)⟩

/-- Every key of the list that has not been seen is kept. -/
theorem mem_keys_firstsFrom {seen : List κ} {l : List α} {k : κ} :
    k ∈ (firstsFrom key seen l).map key ↔ k ∉ seen ∧ k ∈ l.map key := by
  induction l generalizing seen with
  | nil => simp [firstsFrom]
  | cons b l ih =>
    rw [firstsFrom, List.map_cons, List.mem_cons]
    by_cases hb : key b ∈ seen
    · rw [if_pos hb, ih]
      constructor
      · rintro ⟨hk, hl⟩
        exact ⟨hk, Or.inr hl⟩
      · rintro ⟨hk, rfl | hl⟩
        · exact absurd hb hk
        · exact ⟨hk, hl⟩
    · rw [if_neg hb, List.map_cons, List.mem_cons, ih, List.mem_cons, not_or]
      by_cases hk : k = key b
      · subst hk
        simp [hb]
      · simp [hk]

theorem nodup_keys_firstsFrom (seen : List κ) (l : List α) : ((firstsFrom key seen l).map key).Nodup := by
  induction l generalizing seen with
  | nil => exact List.nodup_nil
  | cons b l ih =>
    rw [firstsFrom]
    split
    · exact ih seen
    · rw [List.map_cons, List.nodup_cons]
      refine ⟨fun hmem => ?_, ih _⟩
      exact (mem_keys_firstsFrom.1 hmem).1 List.mem_cons_self

theorem firstsFrom_append (seen : List κ) (l l' : List α) :
    firstsFrom key seen (l ++ l') = firstsFrom key seen l ++ firstsFrom key (l.map key ++ seen) l' := by
  induction l generalizing seen with
  | nil => rfl
  | cons a l ih =>
    rw [List.cons_append, firstsFrom, firstsFrom, List.map_cons]
    by_cases ha : key a ∈ seen
    · rw [if_pos ha, if_pos ha, ih]
      refine congrArg _ (firstsFrom_congr (fun k => ?_) l')
      simp only [List.mem_append, List.mem_cons]
      constructor
      · rintro (hk | hk)
        · exact Or.inl (Or.inr hk)
        · exact Or.inr hk
      · rintro ((rfl | hk) | hk)
        · exact Or.inr ha
        · exact Or.inl hk
        · exact Or.inr hk
    · rw [if_neg ha, if_neg ha, ih, List.cons_append]
      refine congrArg _ (congrArg _ (firstsFrom_congr (fun k => ?_) l'))
      simp only [List.mem_append, List.mem_cons]
      tauto

/-- One more element is kept if its key is new. -/
theorem firsts_concat (l : List α) (a : α) :
    firsts key (l ++ [a]) = if key a ∈ l.map key then firsts key l else firsts key l ++ [a] := by
  rw [firsts, firstsFrom_append, firstsFrom, List.append_nil]
  split
  · simp [firsts, firstsFrom]
  · simp [firsts, firstsFrom]

theorem mem_keys_firsts {l : List α} {k : κ} : k ∈ (firsts key l).map key ↔ k ∈ l.map key := by
  rw [firsts, mem_keys_firstsFrom]
  simp

/-- Keys that have been seen add nothing. -/
theorem firstsFrom_eq_nil {seen : List κ} {l : List α} (h : ∀ a ∈ l, key a ∈ seen) : firstsFrom key seen l = [] := by
  refine List.eq_nil_iff_forall_not_mem.2 fun a ha => ?_
  obtain ⟨hmem, hno⟩ := mem_firstsFrom ha
  exact hno (h a hmem)

/-- Repeating elements of the list changes nothing. -/
theorem firsts_append_repeated {l l' : List α} (h : ∀ a ∈ l', key a ∈ l.map key) :
    firsts key (l ++ l') = firsts key l := by
  have hnil : firstsFrom key (l.map key ++ []) l' = [] := by
    refine firstsFrom_eq_nil fun a ha => ?_
    rw [List.append_nil]
    exact h a ha
  rw [firsts, firstsFrom_append, hnil, List.append_nil]
  rfl

end Firsts
