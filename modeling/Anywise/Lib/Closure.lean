import Mathlib.Data.List.Lattice
import Mathlib.Data.List.Nodup
import Mathlib.Logic.Relation

/-!
# Transitive closure by recursive calls

A call for `a` asks for the successors of `a`, calls itself on each of them and joins the answers; asking may fail.
When the successor relation has a rank, the calls terminate: with more fuel than the rank the fuel does not run out
(`closureWithin_eq`), the result is that of the recursion without fuel (`closure_eq`), it is a list of exactly the
nodes reachable in at least one step (`closure_ok`), and it fails exactly when asking fails at a reachable node
(`closure_ok_iff`).
-/

namespace Closure

variable {α ε : Type} [DecidableEq α]

/-- Joins the answers of `f` on a list to `acc`; the first failure ends it. -/
def joinAll (f : α → Except ε (List α)) (acc : List α) : List α → Except ε (List α)
  | [] => .ok acc
  | b :: bs =>
    match f b with
    | .error e => .error e
    | .ok l => joinAll f (acc ∪ l) bs

/-- The call for `a`, at most `fuel` calls deep. -/
def closure (succ : α → Except ε (List α)) : Nat → α → Except ε (List α)
  | 0, _ => .ok []
  | fuel + 1, a =>
    match succ a with
    | .error e => .error e
    | .ok bs => joinAll (closure succ fuel) bs bs

/-- `joinAll` over calls of which some may not have ended. -/
def joinWithin (f : α → Option (Except ε (List α))) (acc : List α) : List α → Option (Except ε (List α))
  | [] => some (.ok acc)
  | b :: bs =>
    match f b with
    | none => none
    | some (.error e) => some (.error e)
    | some (.ok l) => joinWithin f (acc ∪ l) bs

/-- The call for `a`; `none` when it has not ended `depth` calls deep. -/
def closureWithin (succ : α → Except ε (List α)) : Nat → α → Option (Except ε (List α))
  | 0, _ => none
  | depth + 1, a =>
    match succ a with
    | .error e => some (.error e)
    | .ok bs => joinWithin (closureWithin succ depth) bs bs

/-- `b` is among the successors of `a`. -/
def Step (succ : α → Except ε (List α)) (a b : α) : Prop := ∃ bs, succ a = .ok bs ∧ b ∈ bs

/-! ### Joining -/

theorem joinAll_congr {f g : α → Except ε (List α)} {bs : List α} (h : ∀ b ∈ bs, f b = g b) (acc : List α) :
    joinAll f acc bs = joinAll g acc bs := by
  induction bs generalizing acc with
  | nil => rfl
  | cons b bs ih =>
    have hb := h b List.mem_cons_self
    simp only [joinAll, hb]
    split
    · rfl
    · exact ih (fun x hx => h x (List.mem_cons_of_mem _ hx)) _

theorem joinWithin_eq {f : α → Option (Except ε (List α))} {g : α → Except ε (List α)} {bs : List α}
    (h : ∀ b ∈ bs, f b = some (g b)) (acc : List α) : joinWithin f acc bs = some (joinAll g acc bs) := by
  induction bs generalizing acc with
  | nil => rfl
  | cons b bs ih =>
    have hb := h b List.mem_cons_self
    have hbs : ∀ x ∈ bs, f x = some (g x) := fun x hx => h x (List.mem_cons_of_mem _ hx)
    unfold joinWithin joinAll
    rw [hb]
    cases g b with
    | error e => rfl
    | ok l => exact ih hbs (acc ∪ l)

theorem joinAll_ok {f : α → Except ε (List α)} {bs acc l : List α} (h : joinAll f acc bs = .ok l) :
    (∀ b ∈ bs, ∃ c, f b = .ok c) ∧ ∀ x, x ∈ l ↔ x ∈ acc ∨ ∃ b ∈ bs, ∃ c, f b = .ok c ∧ x ∈ c := by
  induction bs generalizing acc with
  | nil =>
    cases h
    simp
  | cons b bs ih =>
    unfold joinAll at h
    split at h
    · cases h
    · rename_i c hc
      obtain ⟨hok, hmem⟩ := ih h
      refine ⟨?_, fun x => ?_⟩
      · intro y hy
        rcases List.mem_cons.1 hy with rfl | hy
        · exact ⟨c, hc⟩
        · exact hok y hy
      · rw [hmem, List.mem_union_iff, or_assoc]
        refine or_congr_right ⟨?_, ?_⟩
        · rintro (hx | ⟨y, hy, d, hd, hx⟩)
          · exact ⟨b, List.mem_cons_self, c, hc, hx⟩
          · exact ⟨y, List.mem_cons_of_mem _ hy, d, hd, hx⟩
        · rintro ⟨y, hy, d, hd, hx⟩
          rcases List.mem_cons.1 hy with rfl | hy
          · rw [hc] at hd
            cases hd
            exact Or.inl hx
          · exact Or.inr ⟨y, hy, d, hd, hx⟩

theorem joinAll_error {f : α → Except ε (List α)} {bs acc : List α} {e : ε} (h : joinAll f acc bs = .error e) :
    ∃ b ∈ bs, f b = .error e := by
  induction bs generalizing acc with
  | nil => cases h
  | cons b bs ih =>
    unfold joinAll at h
    split at h
    · rename_i e' he
      cases h
      exact ⟨b, List.mem_cons_self, he⟩
    · obtain ⟨y, hy, he⟩ := ih h
      exact ⟨y, List.mem_cons_of_mem _ hy, he⟩

theorem joinAll_nodup {f : α → Except ε (List α)} {bs acc l : List α} (hacc : acc.Nodup)
    (hf : ∀ b ∈ bs, ∀ c, f b = .ok c → c.Nodup) (h : joinAll f acc bs = .ok l) : l.Nodup := by
  induction bs generalizing acc with
  | nil =>
    cases h
    exact hacc
  | cons b bs ih =>
    unfold joinAll at h
    split at h
    · cases h
    · rename_i c hc
      exact ih (List.Nodup.union _ (hf b List.mem_cons_self c hc))
        (fun y hy => hf y (List.mem_cons_of_mem _ hy)) h

/-! ### Calls -/

section Ranked

variable {succ : α → Except ε (List α)} {rank : α → Nat} (hrank : ∀ a b, Step succ a b → rank b < rank a)

include hrank in
/-- More fuel than the rank makes no difference. -/
theorem closure_fuel {n m : Nat} {a : α} (hn : rank a < n) (hm : rank a < m) :
    closure succ n a = closure succ m a := by
  -- the rank falls from a call to the calls it makes, so both fuels last
  induction n generalizing m a with
  | zero => omega
  | succ n ih =>
    obtain ⟨m, rfl⟩ : ∃ k, m = k + 1 := ⟨m - 1, by omega⟩
    unfold closure
    split
    · rfl
    · rename_i bs hbs
      refine joinAll_congr (fun b hb => ?_) _
      have := hrank a b ⟨bs, hbs, hb⟩
      exact ih (by omega) (by omega)

include hrank in
/-- The calls end. -/
theorem closureWithin_eq {n : Nat} {a : α} (hn : rank a < n) :
    closureWithin succ n a = some (closure succ n a) := by
  induction n generalizing a with
  | zero => omega
  | succ n ih =>
    unfold closureWithin closure
    split
    · rfl
    · rename_i bs hbs
      refine joinWithin_eq (fun b hb => ?_) _
      have := hrank a b ⟨bs, hbs, hb⟩
      exact ih (by omega)

include hrank in
/-- The recursion without fuel. -/
theorem closure_eq {n : Nat} {a : α} (hn : rank a < n) :
    closure succ n a = (succ a).bind fun bs => joinAll (closure succ n) bs bs := by
  rw [closure_fuel hrank hn (Nat.lt_succ_of_lt hn), closure]
  cases succ a <;> rfl

include hrank in
theorem closure_ok {n : Nat} {a : α} {l : List α} (hn : rank a < n) (h : closure succ n a = .ok l) :
    (∀ x, Relation.ReflTransGen (Step succ) a x → ∃ bs, succ x = .ok bs) ∧
      ∀ x, x ∈ l ↔ Relation.TransGen (Step succ) a x := by
  induction n generalizing a l with
  | zero => omega
  | succ n ih =>
    unfold closure at h
    split at h
    · cases h
    · rename_i bs hbs
      obtain ⟨hok, hmem⟩ := joinAll_ok h
      have hb : ∀ b ∈ bs, Step succ a b ∧ rank b < n := fun b hb =>
        ⟨⟨bs, hbs, hb⟩, by have := hrank a b ⟨bs, hbs, hb⟩; omega⟩
      constructor
      · -- asking succeeds here and, by induction, below every successor
        intro x hx
        rcases Relation.ReflTransGen.cases_head hx with rfl | ⟨b, ⟨cs, hcs, hbc⟩, hbx⟩
        · exact ⟨bs, hbs⟩
        · rw [hbs] at hcs
          cases hcs
          obtain ⟨c, hc⟩ := hok b hbc
          exact (ih (hb b hbc).2 hc).1 x hbx
      · intro x
        rw [hmem]
        constructor
        · rintro (hx | ⟨b, hbs', c, hc, hx⟩)
          · exact .single ⟨bs, hbs, hx⟩
          · exact .head (hb b hbs').1 (((ih (hb b hbs').2 hc).2 x).1 hx)
        · intro hx
          rcases Relation.TransGen.head'_iff.1 hx with ⟨b, ⟨cs, hcs, hbc⟩, hbx⟩
          rw [hbs] at hcs
          cases hcs
          obtain ⟨c, hc⟩ := hok b hbc
          rcases Relation.ReflTransGen.cases_head hbx with rfl | ⟨d, hbd, hdx⟩
          · exact Or.inl hbc
          · exact Or.inr ⟨b, hbc, c, hc, ((ih (hb b hbc).2 hc).2 x).2 (.head' hbd hdx)⟩

/-- A failure comes from a reachable node. -/
theorem closure_error {n : Nat} {a : α} {e : ε} (h : closure succ n a = .error e) :
    ∃ x, Relation.ReflTransGen (Step succ) a x ∧ succ x = .error e := by
  induction n generalizing a with
  | zero => cases h
  | succ n ih =>
    unfold closure at h
    split at h
    · rename_i e' he
      cases h
      exact ⟨a, .refl, he⟩
    · rename_i bs hbs
      obtain ⟨b, hb, he⟩ := joinAll_error h
      obtain ⟨x, hbx, hx⟩ := ih he
      exact ⟨x, .head ⟨bs, hbs, hb⟩ hbx, hx⟩

include hrank in
theorem closure_ok_iff {n : Nat} {a : α} (hn : rank a < n) :
    (∃ l, closure succ n a = .ok l) ↔
      ∀ x, Relation.ReflTransGen (Step succ) a x → ∃ bs, succ x = .ok bs := by
  constructor
  · rintro ⟨l, hl⟩
    exact (closure_ok hrank hn hl).1
  · intro h
    cases hc : closure succ n a with
    | ok l => exact ⟨l, rfl⟩
    | error e =>
      obtain ⟨x, hax, hx⟩ := closure_error hc
      obtain ⟨bs, hbs⟩ := h x hax
      rw [hbs] at hx
      cases hx

theorem closure_nodup {n : Nat} {a : α} {l : List α} (hsucc : ∀ x bs, succ x = .ok bs → bs.Nodup)
    (h : closure succ n a = .ok l) : l.Nodup := by
  induction n generalizing a l with
  | zero =>
    cases h
    exact List.nodup_nil
  | succ n ih =>
    unfold closure at h
    split at h
    · cases h
    · rename_i bs hbs
      exact joinAll_nodup (hsucc a bs hbs) (fun _ _ _ => ih) h

end Ranked

end Closure
