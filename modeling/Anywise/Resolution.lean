import Anywise.Soundness

/-!
# Which handler answers

A registration overwrites what the registry holds for the types it covers, and an include overwrites what the
`Anywise` holds for the types the registry holds.  So the handler of a type is the one of the last registration that
covers it and precedes, in its registry, the last include of a registry that covered it then (`Answers`):
`answers_last`.
-/

namespace Anywise

/-! ### The specification -/

section Spec

variable (bases : Nat → Option Cls × Option Cls)

/-- The entry registers the handler `h` in `r`, and its function `fn` takes commands of type `T`. -/
def CoversWith (r : Nat) (T : Cls) (h : Target) (fn : Func) : Entry → Prop
  | .handler r' g ord h' => r' = r ∧ h' = h ∧ ∃ base, (bases r).1 = some base ∧
      (∃ metas, extractMetas g ord base h = .ok metas) ∧ Covers g base h T fn
  | _ => False

/-- The entry registers a handler for `T` in `r`. -/
def CoversType (r : Nat) (T : Cls) (e : Entry) : Prop := ∃ h fn, CoversWith bases r T h fn e

/-- The handler `h` with `fn` is the last one registered in `r` for `T`. -/
def LastRegistered (r : Nat) (T : Cls) (h : Target) (fn : Func) (J : List Entry) : Prop :=
  ∃ I₁ e I₂, J = I₁ ++ e :: I₂ ∧ CoversWith bases r T h fn e ∧ ∀ e' ∈ I₂, ¬ CoversType bases r T e'

/-- The entry includes a registry that, after the journal `J`, covers `T`. -/
def IncludesType (T : Cls) (J : List Entry) (e : Entry) : Prop :=
  ∃ r, e = .incl r ∧ ∃ e' ∈ J, CoversType bases r T e'

/-- The handler `h` with `fn` is the last one registered for `T` before the last include of a registry that covered
`T`, in this registry. -/
def Answers (T : Cls) (h : Target) (fn : Func) (J : List Entry) : Prop :=
  ∃ J₁ r J₂, J = J₁ ++ .incl r :: J₂ ∧ LastRegistered bases r T h fn J₁ ∧
    ∀ K₁ e K₂, J₂ = K₁ ++ e :: K₂ → ¬ IncludesType bases T (J₁ ++ .incl r :: K₁) e

/-- The public methods of a registered class take disjoint sets of commands. -/
def DisjointMethods : Entry → Prop
  | .handler r g _ h => ∀ base, (bases r).1 = some base →
      ∀ T fn fn', Covers g base h T fn → Covers g base h T fn' → fn = fn'
  | _ => True

end Spec

/-! ### One registry -/

section

variable {bases : Nat → Option Cls × Option Cls} {r : Nat} {T : Cls} {J : List Entry} {h : Target} {fn : Func}
  {m : FuncMeta}

/-- The meta an entry makes for `T` in `r`. -/
def entryMeta (bases : Nat → Option Cls × Option Cls) (r : Nat) (T : Cls) : Entry → Option FuncMeta
  | .handler r' g ord h => if r' = r then metaFor g ord (bases r).1 h T else none
  | _ => none

theorem registered_eq (bases : Nat → Option Cls × Option Cls) (r : Nat) (T : Cls) (J : List Entry) :
    registered bases r T J = J.findSome? (entryMeta bases r T) := by
  induction J with
  | nil => rfl
  | cons e J ih =>
    cases e with
    | incl r' => simpa [registered, entryMeta, List.findSome?_cons] using ih
    | guard e => simpa [registered, entryMeta, List.findSome?_cons] using ih
    | handler r' g ord h =>
      rw [registered, ih, List.findSome?_cons, entryMeta]
      by_cases hr : r' = r
      · subst hr
        cases metaFor g ord (bases r').1 h T <;> simp
      · simp [hr]

/-- The meta for `T` names a function of the handler that takes a `T`. -/
theorem coversWith_of_entryMeta {e : Entry} (hm : entryMeta bases r T e = some m) :
    ∃ h, CoversWith bases r T h m.handler e ∧ m.IsFrom h := by
  cases e with
  | incl r' => cases hm
  | guard e => cases hm
  | handler r' g ord h =>
    simp only [entryMeta] at hm
    split at hm
    · rename_i hr
      unfold metaFor at hm
      split at hm
      · cases hm
      · rename_i base hb
        split at hm
        · cases hm
        · rename_i metas hx
          obtain ⟨y, hy, heq⟩ := List.mem_map.1 (Dict.mem_of_lastOf hm)
          obtain ⟨ht, rfl⟩ := Prod.mk.inj heq
          exact ⟨h, ⟨hr, rfl, base, hb, ⟨metas, hx⟩, (extractMetas_covers hx).1 ⟨y, hy, ht, rfl⟩⟩,
            isFrom_of_mem hx hy⟩
    · cases hm

/-- An entry that covers `T` makes a meta for it. -/
theorem entryMeta_of_coversWith {e : Entry} (hc : CoversWith bases r T h fn e) :
    ∃ m, entryMeta bases r T e = some m ∧ m.IsFrom h ∧ (DisjointMethods bases e → m.handler = fn) := by
  cases e with
  | incl r' => exact hc.elim
  | guard e => exact hc.elim
  | handler r' g ord h' =>
    obtain ⟨rfl, rfl, base, hb, ⟨metas, hx⟩, hcov⟩ := hc
    obtain ⟨y, hy, ht, -⟩ := (extractMetas_covers hx).2 hcov
    obtain ⟨m, hm⟩ := Option.isSome_iff_exists.1
      (Dict.lastOf_isSome.2 ⟨y, List.mem_map.2 ⟨y, hy, by rw [ht]⟩⟩ :
        (Dict.lastOf T (metas.map fun m => (m.messageType, m))).isSome)
    have hmeta : entryMeta bases r' T (.handler r' g ord h') = some m := by
      simp [entryMeta, metaFor, hb, hx, hm]
    obtain ⟨y', hy', heq⟩ := List.mem_map.1 (Dict.mem_of_lastOf hm)
    obtain ⟨ht', rfl⟩ := Prod.mk.inj heq
    refine ⟨y', hmeta, isFrom_of_mem hx hy', fun hd => ?_⟩
    exact hd base hb T _ _ ((extractMetas_covers hx).1 ⟨y', hy', ht', rfl⟩) hcov

theorem coversType_iff {e : Entry} : CoversType bases r T e ↔ (entryMeta bases r T e).isSome := by
  constructor
  · rintro ⟨h, fn, hc⟩
    obtain ⟨m, hm, -⟩ := entryMeta_of_coversWith hc
    rw [hm]
    rfl
  · intro hs
    obtain ⟨m, hm⟩ := Option.isSome_iff_exists.1 hs
    obtain ⟨h, hc, -⟩ := coversWith_of_entryMeta hm
    exact ⟨h, m.handler, hc⟩

theorem not_coversType_iff {e : Entry} : ¬ CoversType bases r T e ↔ entryMeta bases r T e = none := by
  rw [coversType_iff, Bool.not_eq_true, Option.isSome_eq_false_iff, Option.isNone_iff_eq_none]

theorem registered_some (hm : registered bases r T J.reverse = some m) :
    ∃ h, LastRegistered bases r T h m.handler J ∧ m.IsFrom h := by
  rw [registered_eq, List.findSome?_eq_some_iff] at hm
  obtain ⟨l₁, e, l₂, hl, hm, hnone⟩ := hm
  obtain ⟨h, hc, hfrom⟩ := coversWith_of_entryMeta hm
  refine ⟨h, ⟨l₂.reverse, e, l₁.reverse, ?_, hc, fun e' he' => ?_⟩, hfrom⟩
  · rw [← J.reverse_reverse, hl]
    simp
  · exact not_coversType_iff.2 (hnone e' (List.mem_reverse.1 he'))

theorem registered_none : registered bases r T J.reverse = none ↔ ∀ e ∈ J, ¬ CoversType bases r T e := by
  rw [registered_eq, List.findSome?_eq_none_iff]
  simp only [List.mem_reverse, not_coversType_iff]

/-! ### All includes -/

theorem includesType_iff {e : Entry} :
    IncludesType bases T J e ↔ ∃ r m, e = .incl r ∧ registered bases r T J.reverse = some m := by
  constructor
  · rintro ⟨r, rfl, e', he', hc⟩
    cases hreg : registered bases r T J.reverse with
    | none => exact absurd hc (registered_none.1 hreg e' he')
    | some m => exact ⟨r, m, rfl, hreg⟩
  · rintro ⟨r, m, rfl, hm⟩
    obtain ⟨h, ⟨I₁, e, I₂, rfl, hc, -⟩, -⟩ := registered_some hm
    exact ⟨r, rfl, e, by simp, h, m.handler, hc⟩

/-- An entry that includes no handler for `T` leaves the answer as it is. -/
theorem resolved_snoc {e : Entry} (he : ¬ IncludesType bases T J e) :
    resolved bases T (J ++ [e]).reverse = resolved bases T J.reverse := by
  rw [List.reverse_append, List.reverse_singleton, List.singleton_append]
  cases e with
  | handler r' g ord h => rfl
  | guard e => rfl
  | incl r' =>
    rw [resolved]
    cases hreg : registered bases r' T J.reverse with
    | none => rw [Option.none_or]
    | some m => exact absurd (includesType_iff.2 ⟨r', m, rfl, hreg⟩) he

/-- The entries after `J` include no handler for `T`. -/
theorem resolved_append {K : List Entry}
    (hK : ∀ K₁ e K₂, K = K₁ ++ e :: K₂ → ¬ IncludesType bases T (J ++ K₁) e) :
    resolved bases T (J ++ K).reverse = resolved bases T J.reverse := by
  induction K using List.reverseRecOn with
  | nil => rw [List.append_nil]
  | append_singleton K e ih =>
    rw [← List.append_assoc, resolved_snoc (hK K e [] rfl)]
    exact ih fun K₁ e' K₂ hl => hK K₁ e' (K₂ ++ [e]) (by rw [hl]; simp)

end

/-! ### Runs -/

namespace System

open UserApp

end System

end Anywise
