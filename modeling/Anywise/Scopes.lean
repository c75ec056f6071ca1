import Anywise.Soundness

/-!
# Scopes that stay open

`send` and `publish` enter a scope when the caller gives none, and nothing exits it, whether the call succeeds or
raises: the scopes the library has entered are those of the calls started without a scope (`scopes_kept_iff`).  What
the caller has entered is left alone.
-/

namespace Anywise

namespace System

section

variable {bases : Nat → Option Cls × Option Cls} {s s' : System} {a : SysAct}

/-- What an action does to the open scopes, and to the number of calls. -/
theorem step_scopes (h : s.step a = some s') :
    (∃ method msg context, a = .start method msg context none ∧
      s'.scopes = s.scopes ++ [.own s.calls.length] ∧ s'.calls.length = s.calls.length + 1) ∨
    (∃ method msg context n, a = .start method msg context (some n) ∧
      s'.scopes = s.scopes ∧ s'.calls.length = s.calls.length + 1) ∨
    (s'.calls.length = s.calls.length ∧
      ((∃ n, a = .openScope n ∧ s'.scopes = s.scopes ++ [.given n]) ∨
        (∃ n, a = .closeScope n ∧ s'.scopes = s.scopes.erase (.given n)) ∨
        s'.scopes = s.scopes)) := by
  cases steps_of_step h with
  | world b => exact Or.inr (Or.inr ⟨rfl, Or.inr (Or.inr rfl)⟩)
  | openScope _ => exact Or.inr (Or.inr ⟨rfl, Or.inl ⟨_, rfl, rfl⟩⟩)
  | closeScope _ => exact Or.inr (Or.inr ⟨rfl, Or.inr (Or.inl ⟨_, rfl, rfl⟩)⟩)
  | start context _ => exact Or.inl ⟨_, _, context, rfl, rfl, by simp⟩
  | startIn context n _ => exact Or.inr (Or.inl ⟨_, _, context, n, rfl, rfl, by simp⟩)
  | call _ _ => exact Or.inr (Or.inr ⟨by simp, Or.inr (Or.inr rfl)⟩)

/-- An entered scope is not left. -/
theorem own_step (h : s.step a = some s') {c : Nat} :
    .own c ∈ s'.scopes ↔ .own c ∈ s.scopes ∨
      c = s.calls.length ∧ ∃ method msg context, a = .start method msg context none := by
  rcases step_scopes h with ⟨method, msg, context, rfl, hs, -⟩ | ⟨method, msg, context, n, rfl, hs, -⟩ |
    ⟨-, ⟨n, rfl, hs⟩ | ⟨n, rfl, hs⟩ | hs⟩
  · simp [hs]
  · simp [hs]
  · simp [hs]
  · simp [hs, List.mem_erase_of_ne]
  · rw [hs]
    refine ⟨Or.inl, fun hc => hc.resolve_right ?_⟩
    rintro ⟨-, method, msg, context, rfl⟩
    cases steps_of_step h
    simp at hs

theorem given_step (h : s.step a = some s') {n : Nat} (hopen : a ≠ .openScope n) (hclose : a ≠ .closeScope n) :
    .given n ∈ s'.scopes ↔ .given n ∈ s.scopes := by
  rcases step_scopes h with ⟨_, _, _, -, hs, -⟩ | ⟨_, _, _, _, -, hs, -⟩ | ⟨-, ⟨m, rfl, hs⟩ | ⟨m, rfl, hs⟩ | hs⟩
  · simp [hs]
  · rw [hs]
  · have hne : n ≠ m := fun e => hopen (by rw [e])
    simp [hs, hne]
  · have hne : n ≠ m := fun e => hclose (by rw [e])
    rw [hs]
    exact List.mem_erase_of_ne (by simpa using hne)
  · rw [hs]

/-- The action starts a call without a scope. -/
def Scopeless (a : SysAct) : Prop := ∃ method msg context, a = .start method msg context none

theorem own_run {acts : List SysAct} (hrun : Run.run step s acts = some s') :
    (∀ c, .own c ∈ s.scopes → .own c ∈ s'.scopes) ∧
    ((∀ a ∈ acts, ¬ Scopeless a) → ∀ c, .own c ∈ s'.scopes → .own c ∈ s.scopes) ∧
    ((∃ a ∈ acts, Scopeless a) → ∃ c, s.calls.length ≤ c ∧ .own c ∈ s'.scopes) := by
  induction acts generalizing s with
  | nil =>
    cases hrun
    exact ⟨fun _ => id, fun _ _ => id, by simp⟩
  | cons a acts ih =>
    obtain ⟨t, ht, hrun⟩ := Run.run_cons.1 hrun
    obtain ⟨hmono, hsame, hnew⟩ := ih hrun
    refine ⟨fun c hc => hmono c ((own_step ht).2 (Or.inl hc)), fun hno c hc => ?_, ?_⟩
    · have hct := hsame (fun b hb => hno b (List.mem_cons_of_mem _ hb)) c hc
      rcases (own_step ht).1 hct with hc | ⟨-, hs⟩
      · exact hc
      · exact absurd hs (hno a List.mem_cons_self)
    · rintro ⟨b, hb, hs⟩
      rcases List.mem_cons.1 hb with rfl | hb
      · exact ⟨s.calls.length, le_rfl, hmono _ ((own_step ht).2 (Or.inr ⟨rfl, hs⟩))⟩
      · obtain ⟨c, hle, hc⟩ := hnew ⟨b, hb, hs⟩
        exact ⟨c, (calls_length_le ht).trans hle, hc⟩

theorem given_run {acts : List SysAct} (hrun : Run.run step s acts = some s') {n : Nat}
    (hopen : .openScope n ∉ acts) (hclose : .closeScope n ∉ acts) : .given n ∈ s'.scopes ↔ .given n ∈ s.scopes := by
  induction acts generalizing s with
  | nil =>
    cases hrun
    exact Iff.rfl
  | cons a acts ih =>
    obtain ⟨t, ht, hrun⟩ := Run.run_cons.1 hrun
    rw [List.mem_cons, not_or] at hopen hclose
    rw [ih hrun hopen.2 hclose.2, given_step ht (Ne.symm hopen.1) (Ne.symm hclose.1)]

/-- The scopes entered by the library belong to calls. -/
theorem own_lt_of_run {acts : List SysAct} (hrun : Run.run step (new bases) acts = some s) {c : Nat}
    (hc : .own c ∈ s.scopes) : c < s.calls.length := by
  have hinv : ∀ c, .own c ∈ s.scopes → c < s.calls.length := by
    refine Run.preserved (I := fun s : System => ∀ c, .own c ∈ s.scopes → c < s.calls.length)
      (fun s a s' hs hstep c hc => ?_) (by simp [new]) hrun
    have hle := calls_length_le hstep
    rcases step_scopes hstep with ⟨_, _, _, rfl, -, hl⟩ | h
    · rcases (own_step hstep).1 hc with hc | ⟨rfl, -⟩
      · have := hs c hc
        omega
      · omega
    · rcases (own_step hstep).1 hc with hc | ⟨rfl, _, _, _, rfl⟩
      · have := hs c hc
        omega
      · cases steps_of_step hstep
        simp
  exact hinv c hc

/-- The scope entered for a call is open, whatever has become of the call. -/
theorem own_iff_of_run {acts : List SysAct} (hrun : Run.run step (new bases) acts = some s) {c : Nat} {k : Call}
    (hk : s.calls[c]? = some k) : .own c ∈ s.scopes ↔ ¬ ∃ n, k.scope = .given n := by
  induction acts using List.reverseRecOn generalizing s k with
  | nil =>
    cases hrun
    simp [new] at hk
  | append_singleton acts a ih =>
    obtain ⟨t, ht, hstep⟩ := Run.run_append.1 hrun
    obtain ⟨u, hstep, hu⟩ := Run.run_cons.1 hstep
    cases hu
    rcases step_calls hstep hk with ⟨hk, -⟩ | ⟨method, msg, context, scope, rfl, -, rfl, rfl, -⟩ |
      ⟨b, k₀, rfl, hk₀, hst⟩
    · rw [own_step hstep, ← ih ht hk]
      refine ⟨fun hc => hc.resolve_right ?_, Or.inl⟩
      rintro ⟨rfl, -⟩
      exact absurd (List.getElem?_eq_some_iff.1 hk).1 (Nat.lt_irrefl _)
    · -- the call has just begun
      have hfresh : .own t.calls.length ∉ t.scopes := fun hc => Nat.lt_irrefl _ (own_lt_of_run ht hc)
      rw [own_step hstep]
      cases scope <;> simp [begin, hfresh]
    · obtain ⟨-, -, -, hsc⟩ := hst.args
      rw [own_step hstep, hsc, ← ih ht hk₀]
      simp

end

/-- A call has exited what was entered for it if and only if nothing was, as the caller gave a scope: over every run
the scopes entered by the library are the same before and after if and only if a scope was given for every call.
The scopes of callers are entered and exited by callers only. -/
theorem scopes_kept_iff (bases : Nat → Option Cls × Option Cls) (before acts : List SysAct) (s s' : System)
    (hbefore : Run.run step (new bases) before = some s) (hrun : Run.run step s acts = some s') :
    (∀ (c : Nat) (k : Call), s'.calls[c]? = some k → (.own c ∉ s'.scopes ↔ ∃ n, k.scope = .given n)) ∧
    ((∀ c, .own c ∈ s'.scopes ↔ .own c ∈ s.scopes) ↔
      ∀ method msg context scope, .start method msg context scope ∈ acts → scope ≠ none) ∧
    ∀ n, .openScope n ∉ acts → .closeScope n ∉ acts → (.given n ∈ s'.scopes ↔ .given n ∈ s.scopes) := by
  obtain ⟨hmono, hsame, hnew⟩ := own_run hrun
  have hiff : (∀ method msg context scope, .start method msg context scope ∈ acts → scope ≠ none) ↔
      ∀ a ∈ acts, ¬ Scopeless a := by
    constructor
    · rintro h a ha ⟨method, msg, context, rfl⟩
      exact h method msg context none ha rfl
    · rintro h method msg context scope ha rfl
      exact h _ ha ⟨method, msg, context, rfl⟩
  have hall : Run.run step (new bases) (before ++ acts) = some s' := Run.run_append.2 ⟨s, hbefore, hrun⟩
  refine ⟨fun c k hk => ?_, ?_, fun n hopen hclose => given_run hrun hopen hclose⟩
  · rw [own_iff_of_run hall hk, not_not]
  rw [hiff]
  constructor
  · intro hc a ha hs
    obtain ⟨c, hle, hown⟩ := hnew ⟨a, ha, hs⟩
    have hlt := own_lt_of_run hbefore ((hc c).1 hown)
    omega
  · exact fun hno c => ⟨hsame hno c, hmono c⟩

/-! ### A successful send and a failing one -/

open UserApp

/-- A send of a registered command without a scope, up to its end. -/
def sendAlone : List SysAct :=
  setup ++ [.world (.incl 0), .start .send ⟨0, CreateUser⟩ none none, .call 0 .lookup, .call 0 .resolveMeta,
    .call 0 .readGuards, .call 0 (.answer (some 0))]

/-- The handler has returned, and the scope entered for it is open. -/
theorem sendAlone_leaks :
    ∃ s k, Run.run step (new bases) sendAlone = some s ∧ s.calls[0]? = some k ∧ k.phase = .done (.ok (some 0)) ∧
      .own 0 ∈ s.scopes := by
  have hrun : ((Run.run step (new bases) sendAlone).bind fun s =>
      s.calls[0]?.map fun k => (s.scopes, k.phase.returned)) = some ([.own 0], some (some 0)) := by
    decide +kernel
  obtain ⟨s, hs, hk⟩ := Option.bind_eq_some_iff.1 hrun
  obtain ⟨k, hk, hout⟩ := Option.map_eq_some_iff.1 hk
  obtain ⟨hscopes, hreturned⟩ := Prod.mk.inj hout
  exact ⟨s, k, hs, hk, Phase.returned_eq_some.1 hreturned, by simp [hscopes]⟩

/-- A send in the scope of the caller leaves this scope open, and no other. -/
theorem send_in_scope :
    ∃ s s', Run.run step (new bases) [.openScope 0] = some s ∧
      Run.run step s [.start .send ⟨0, Cls.object⟩ none (some 0), .call 0 .lookup] = some s' ∧
      (∀ c, .own c ∈ s'.scopes ↔ .own c ∈ s.scopes) ∧ .given 0 ∈ s'.scopes := by
  obtain ⟨s, hs⟩ : ∃ s, Run.run step (new bases) [.openScope 0] = some s := ⟨_, rfl⟩
  obtain ⟨s', hs'⟩ : ∃ s',
      Run.run step s [.start .send ⟨0, Cls.object⟩ none (some 0), .call 0 .lookup] = some s' := by
    cases hs
    exact ⟨_, rfl⟩
  obtain ⟨-, hown, hgiven⟩ := scopes_kept_iff bases [.openScope 0] _ s s' hs hs'
  refine ⟨s, s', hs, hs', hown.2 fun method msg context scope hmem => ?_, (hgiven 0 (by simp) (by simp)).2 ?_⟩
  · simp only [List.mem_cons, SysAct.start.injEq, reduceCtorEq, List.not_mem_nil, or_false] at hmem
    rw [hmem.2.2.2]
    simp
  · cases hs
    exact List.mem_singleton_self _

end System

end Anywise
