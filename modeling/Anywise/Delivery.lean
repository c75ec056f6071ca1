import Anywise.Soundness

/-!
# Concurrent sends

The links of the guard objects are shared by all sends, and a guard reads its link only after its `pre_handle` has
returned.  A send that links a guard which another send has linked and not read yet takes that send to its own
handler (`crossed_delivery`).  As long as no link step does this (`System.KeepsChains`), every send delivers to its
own handler, through its own guards (`delivers_own`).
-/

namespace Anywise

namespace System

section

variable {bases : Nat → Option Cls × Option Cls} {s s' : System} {J : List Entry}

/-- No guard is linked anew that another send has linked and not read yet, and the list linked skips no guard. -/
def KeepsChains (s : System) (a : SysAct) : Prop :=
  ∀ d objs, a = .call d (.chain objs) → Chain.NoSkip objs ∧
    ∀ c k, c ≠ d → s.calls[c]? = some k → ∀ x ∈ objs, x ∉ k.unread

instance (s : System) (a : SysAct) : Decidable (s.KeepsChains a) :=
  match a with
  | .call d (.chain objs) =>
    decidable_of_iff
      (Chain.NoSkip objs ∧ ∀ c, (_ : c < s.calls.length) → c ≠ d → ∀ x ∈ objs, x ∉ s.calls[c].unread) (by
      simp only [KeepsChains, SysAct.call.injEq, CallAct.chain.injEq, and_imp]
      constructor
      · rintro ⟨hskip, h⟩ _ _ rfl rfl
        refine ⟨hskip, fun c k hc hk x hx => ?_⟩
        obtain ⟨hlt, rfl⟩ := List.getElem?_eq_some_iff.1 hk
        exact h c hlt hc x hx
      · intro h
        obtain ⟨hskip, h⟩ := h d objs rfl rfl
        exact ⟨hskip, fun c hlt hc => h c _ hc (List.getElem?_eq_getElem hlt)⟩)
  | .call _ .lookup | .call _ .resolveMeta | .call _ .readGuards | .call _ .callNext | .call _ .nextFalse
  | .call _ (.answer _) | .call _ (.raise _) | .world _ | .openScope _ | .closeScope _ | .start .. =>
    .isTrue (by simp [KeepsChains])

/-- The guard list the send has read is the one of its type at some moment of the run. -/
def Reads (J : List Entry) (k : Call) : Prop :=
  k.listed ≠ [] ∨ k.deliveries ≠ [] → ∃ J₀, J₀ <+: J ∧ k.listed = guardList J₀ k.msg.type

/-- The invariant: all sends are sound. -/
def Orderly (J : List Entry) (s : System) : Prop :=
  ∀ c k, s.calls[c]? = some k → k.method = .send →
    k.Sound s.links c ∧ Chain.NoSkip k.guards ∧ k.msg.type ≠ Cls.any ∧ Reads J k

theorem Reads.mono {k : Call} (h : Reads J k) (K : List Entry) : Reads (J ++ K) k := by
  intro hr
  obtain ⟨J₀, hJ, hl⟩ := h hr
  exact ⟨J₀, hJ.trans (List.prefix_append _ _), hl⟩

theorem Orderly.step {a : SysAct} (h : Orderly J s) (hJ : Journaled bases s.world J) (ha : s.KeepsChains a)
    (hs : s.step a = some s') : Orderly (J ++ s.entries a) s' := by
  intro c k' hk' hsend
  rcases step_calls hs hk' with ⟨hk, hne⟩ | ⟨method, msg, context, scope, rfl, hi, -, rfl, hl⟩ |
    ⟨b, k, rfl, hk, hstep⟩
  · -- the call has not moved
    obtain ⟨hsound, hskip, hany, hreads⟩ := h c k' hk hsend
    refine ⟨hsound.other fun x hx => ?_, hskip, hany, hreads.mono _⟩
    rcases step_links hs with ⟨hl, -⟩ | ⟨d, head, rest, e, rfl, hl⟩
    · rw [hl]
    · have hcd : c ≠ d := fun hcd => hne _ (by rw [hcd])
      rw [hl]
      exact Chain.linkFrom_of_notMem fun hmem => (ha d _ rfl).2 c k' hcd hk x hmem hx
  · -- the call has just begun
    obtain rfl : method = .send := hsend
    rw [hl]
    refine ⟨Call.sound_begin _ _ _ _ _, Chain.noSkip_of_nodup List.nodup_nil, hi.1, ?_⟩
    rintro (hne | hne) <;> exact absurd rfl hne
  · -- the call has moved
    obtain ⟨hmeth, hmsg, -, -⟩ := hstep.args
    rw [hmeth] at hsend
    obtain ⟨hsound, hskip, hany, hreads⟩ := h c k hk hsend
    refine ⟨hsound.steps hsend hJ.messageType hstep, ?_, hmsg ▸ hany, fun hr => ?_⟩
    · rcases hstep.guards with hg | rfl
      · rwa [hg]
      · exact (ha c _ rfl).1
    · rw [hmsg]
      rcases hsound.steps_listed hsend hstep with hl | ⟨hl, hd⟩
      · exact ⟨J, List.prefix_append _ _, by rw [hl, hJ.commandGuards hany]⟩
      · rw [hl] at hr ⊢
        obtain ⟨J₀, hJ₀, hl₀⟩ := hreads (hr.elim Or.inl hd)
        exact ⟨J₀, hJ₀.trans (List.prefix_append _ _), hl₀⟩

theorem orderly_run {acts : List SysAct} (h : Orderly J s) (hJ : Journaled bases s.world J)
    (ha : Run.Meets step KeepsChains s acts) (hrun : Run.run step s acts = some s') :
    Orderly (J ++ s.journal acts) s' :=
  keeps_run (I := Orderly) (fun _ _ _ _ hJ hk hs h => h.step hJ hk hs) hJ ha hrun h

/-- In a run in which no send links guards that another send still has to read, every send calls guards of its own
list only, in its order, and delivers its command once at most: to the handler it has resolved itself, for its own
type and in its own scope, after it has called all guards of its list.  While it has not, it gets there if its guards
go on calling the next one. -/
theorem delivers_own (bases : Nat → Option Cls × Option Cls) (acts : List SysAct) (s : System)
    (hrun : Run.run step (new bases) acts = some s) (hkeep : Run.Meets step KeepsChains (new bases) acts)
    (c : Nat) (k : Call) (hk : s.calls[c]? = some k) (hsend : k.method = .send) :
    k.entered <+: Chain.visited k.guards ∧
    (k.guards ≠ [] ∨ k.deliveries ≠ [] →
      ∃ J, J <+: (new bases).journal acts ∧ ResolveTo (guardList J k.msg.type) k.guards) ∧
    (k.deliveries = [] ∨ ∃ h, k.deliveries = [(h, k.msg)] ∧
      h.call = c ∧ h.scope = k.scope ∧ h.funcMeta.messageType = k.msg.type ∧ ∀ g, g ∈ k.entered ↔ g ∈ k.guards) ∧
    ∀ f outer, k.phase = .before f outer → ∃ n s' k' h outer',
      Run.run step s (List.replicate n (.call c .callNext)) = some s' ∧ s'.calls[c]? = some k' ∧
        k'.phase = .handling h outer' ∧ k'.deliveries = [(h, k.msg)] ∧ h.call = c ∧ h.scope = k.scope ∧
        h.funcMeta.messageType = k.msg.type ∧ ∀ g, g ∈ k'.entered ↔ g ∈ k.guards := by
  have horder : Orderly ([] ++ (new bases).journal acts) s :=
    orderly_run (fun c k hk => by simp [new] at hk) (journaled_new bases) hkeep hrun
  obtain ⟨hsound, hskip, -, hreads⟩ := horder c k hk hsend
  rw [List.nil_append] at hreads
  refine ⟨hsound.called, fun hne => ?_, ?_, fun f outer hp => ?_⟩
  · have hres : ResolveTo k.listed k.guards := by
      rcases hne with hne | hne
      · exact hsound.linked.resolve_left hne
      · obtain ⟨h, -, -, -, hres⟩ := hsound.delivered.resolve_left hne
        exact hres
    have hlist : k.listed ≠ [] ∨ k.deliveries ≠ [] := by
      refine hne.imp_left fun hg hnil => hg ?_
      rw [hnil] at hres
      exact List.forall₂_nil_left_iff.1 hres
    obtain ⟨J₀, hJ₀, hl⟩ := hreads hlist
    exact ⟨J₀, hJ₀, hl ▸ hres⟩
  · refine hsound.delivered.imp_right ?_
    rintro ⟨h, hd, hh, hent, -⟩
    obtain ⟨hc, hsc, ht⟩ := hsound.own h hh
    refine ⟨h, hd, hc, hsc, ht, fun g => ?_⟩
    rw [hent, Chain.mem_visited hskip]
  · obtain ⟨n, s', k', h, outer', hrun', hk', hp', hh, hdel, hent⟩ := reaches_handler hk hsound hp
    obtain ⟨hc, hsc, ht⟩ := hsound.own h hh
    refine ⟨n, s', k', h, outer', hrun', hk', hp', hdel, hc, hsc, ht, fun g => ?_⟩
    rw [hent, Chain.mem_visited hskip]

end

/-! ### Two sends and a global guard -/

open UserApp

/-- The `Guard` object for `Any`. -/
def globalGuard : GuardObj := .guard 0 0 Cls.any (some 3) none

/-- A global guard is registered, and both commands are sent.  The second send begins when the first one is in the
`pre_handle` of the guard. -/
def crossing : List SysAct :=
  setup ++ [.world (.preHandle 0 .listed (guardFunc 3 Cls.any)), .world (.incl 0)] ++
    sendUpTo 0 ⟨0, CreateUser⟩ [globalGuard] ++ sendUpTo 1 ⟨1, UpdateUser⟩ [globalGuard] ++ [.call 0 .callNext]

/-- The same, the guard having called the handler of the first send before. -/
def following : List SysAct :=
  setup ++ [.world (.preHandle 0 .listed (guardFunc 3 Cls.any)), .world (.incl 0)] ++
    sendUpTo 0 ⟨0, CreateUser⟩ [globalGuard] ++ [.call 0 .callNext] ++
    sendUpTo 1 ⟨1, UpdateUser⟩ [globalGuard] ++ [.call 1 .callNext]

/-- A call with its deliveries: the call each handler was resolved for, the type of the handler and the message. -/
structure Outline where
  method : Method
  msg : Msg
  delivered : List (Nat × Cls × Msg)
  deriving DecidableEq

def outline (s : System) : List Outline :=
  s.calls.map fun k => ⟨k.method, k.msg, k.deliveries.map fun d => (d.1.call, d.1.funcMeta.messageType, d.2)⟩

/-- The first send delivers its command to the handler that the second one has resolved, for the other type. -/
theorem crossed_delivery :
    ∃ s k h, Run.run step (new bases) crossing = some s ∧ s.calls[0]? = some k ∧ k.method = .send ∧
      k.msg.type = CreateUser ∧ k.deliveries = [(h, k.msg)] ∧ h.call = 1 ∧ h.funcMeta.messageType = UpdateUser := by
  have hrun : (Run.run step (new bases) crossing).map outline =
      some [⟨.send, ⟨0, CreateUser⟩, [(1, UpdateUser, ⟨0, CreateUser⟩)]⟩, ⟨.send, ⟨1, UpdateUser⟩, []⟩] := by
    decide +kernel
  obtain ⟨s, hs, hout⟩ := Option.map_eq_some_iff.1 hrun
  rcases hcalls : s.calls with _ | ⟨k, rest⟩
  · simp [outline, hcalls] at hout
  · simp only [outline, hcalls, List.map_cons, List.cons.injEq, Outline.mk.injEq] at hout
    obtain ⟨⟨hmeth, hmsg, hdel⟩, -⟩ := hout
    obtain ⟨⟨h, m⟩, hd, hh⟩ := List.map_eq_singleton_iff.1 hdel
    simp only [Prod.mk.injEq] at hh
    obtain ⟨hc, ht, rfl⟩ := hh
    exact ⟨s, k, h, hs, by simp [hcalls], hmeth, by rw [hmsg], by rw [hd, hmsg], hc, ht⟩

/-- When the first guard has read its link in time, both sends deliver to their own handlers. -/
theorem following_delivery :
    ∃ s k₀ k₁, Run.run step (new bases) following = some s ∧ s.calls = [k₀, k₁] ∧
      (k₀.deliveries = [] ∨ ∃ h, k₀.deliveries = [(h, k₀.msg)] ∧ h.call = 0 ∧ h.scope = k₀.scope ∧
        h.funcMeta.messageType = k₀.msg.type ∧ ∀ g, g ∈ k₀.entered ↔ g ∈ k₀.guards) ∧
      (k₁.deliveries = [] ∨ ∃ h, k₁.deliveries = [(h, k₁.msg)] ∧ h.call = 1 ∧ h.scope = k₁.scope ∧
        h.funcMeta.messageType = k₁.msg.type ∧ ∀ g, g ∈ k₁.entered ↔ g ∈ k₁.guards) := by
  have hrun : (Run.run step (new bases) following).map outline =
      some [⟨.send, ⟨0, CreateUser⟩, [(0, CreateUser, ⟨0, CreateUser⟩)]⟩,
        ⟨.send, ⟨1, UpdateUser⟩, [(1, UpdateUser, ⟨1, UpdateUser⟩)]⟩] := by
    decide +kernel
  have hkeep : Run.Meets step KeepsChains (new bases) following := by decide +kernel
  obtain ⟨s, hs, hout⟩ := Option.map_eq_some_iff.1 hrun
  rcases hcalls : s.calls with _ | ⟨k₀, _ | ⟨k₁, _ | ⟨_, _⟩⟩⟩ <;> simp [outline, hcalls] at hout
  obtain ⟨⟨hm₀, -⟩, hm₁, -⟩ := hout
  exact ⟨s, k₀, k₁, hs, hcalls, (delivers_own bases following s hs hkeep 0 k₀ (by simp [hcalls]) hm₀).2.2.1,
    (delivers_own bases following s hs hkeep 1 k₁ (by simp [hcalls]) hm₁).2.2.1⟩

end System

end Anywise
