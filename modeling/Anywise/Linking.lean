import Anywise.Lib.Relinking
import Anywise.Soundness

/-!
# Chains that share guards

`_chain_guards` writes the `_next_guard` of the guard objects of one call over what earlier calls have left there.
However the chains overlap, from a guard that was ever linked the links lead to a handler.  A guard that is called
asks whether its next one is true, which a class-based guard need not be, and raises `DunglingGuardError` if it is not.
So a call that goes from guard to guard arrives, as long as nobody links in between, exactly when the guards that
follow others are true (`linked_guards_end`).
-/

namespace Anywise

/-- The guard called calls the next one, that one the next, and so on, while the world may change. -/
def Call.walk (links : Links) (c : Nat) : List World → Call → Option Call
  | [], k => some k
  | w :: ws, k => (k.step w links c .callNext).bind fun r => r.2.2.walk links c ws

/-! ### Guards that are false -/

/-- Which guard objects are true while they are called: a `Guard` is, for the others it is up to their class. -/
structure Truth where
  holds : GuardObj → Bool
  plain : ∀ g, g.isCustom = false → holds g = true

namespace Truth

/-- What the guard does at `if not self._next_guard`. -/
def atNext (truth : Truth) (links : Links) (g : GuardObj) : CallAct :=
  match links g with
  | some (.inl next) => if truth.holds next then .callNext else .nextFalse
  | _ => .callNext

/-- The guard called does so, then the one that it calls, and so on, while the world may change. -/
def walk (truth : Truth) (links : Links) (c : Nat) : List World → Call → Option Call
  | [], k => some k
  | w :: ws, k =>
    match k.phase with
    | .before f _ => (k.step w links c (truth.atNext links f.guard)).bind fun r => truth.walk links c ws r.2.2
    | _ => none

end Truth

namespace Call

variable {links links' : Links} {c : Nat} {k k' : Call}

/-- A guard that has a next one calls it. -/
theorem callNext_eq {f : Frame} {outer : List Frame} (hp : k.phase = .before f outer) {next : GuardObj ⊕ Resolved}
    (hl : links f.guard = some next) (w : World) :
    k.step w links c .callNext = some (w, links, k.enterNext next f.command f.context (f :: outer)) :=
  (Steps.next hp hl).step

/-- What a call does on the way that the links show. -/
theorem walk_enters {s : GuardObj ⊕ Resolved} {way : List GuardObj} {h : Resolved}
    (hpath : Chain.Path links s way h) :
    ∀ (k : Call) (f : Frame) (outer : List Frame) (ws : List World), s = .inl f.guard → k.phase = .before f outer →
      ws.length = way.length →
        ∃ k' outer', k.walk links c ws = some k' ∧ k'.phase = .handling h outer' ∧
          k'.entered = k.entered ++ way.tail ∧ k'.deliveries = k.deliveries ++ [(h, f.command)] := by
  induction hpath with
  | stop h =>
    intro k f outer ws hs
    cases hs
  | @step x s way h hx hrest ih =>
    intro k f outer ws hs hp hlen
    obtain rfl := Sum.inl.inj hs
    obtain ⟨w, ws, rfl⟩ := List.exists_cons_of_length_eq_add_one hlen
    have hlen' : ws.length = way.length := by simpa using hlen
    rw [walk, callNext_eq hp hx w, Option.bind_some]
    cases s with
    | inl g =>
      obtain ⟨k', outer', hwalk, hp', hent, hdel⟩ :=
        ih (k.enterNext (.inl g) f.command f.context (f :: outer)) _ _ ws rfl rfl hlen'
      refine ⟨k', outer', hwalk, hp', ?_, ?_⟩
      · cases hrest with
        | step _ _ => simpa [enterNext] using hent
      · rwa [deliveries_guard] at hdel
    | inr r =>
      -- the next one is the handler, and the walk is over
      cases hrest
      obtain rfl := List.length_eq_zero_iff.1 hlen'
      refine ⟨_, f :: outer, rfl, rfl, by simp [enterNext], deliveries_handler _ _ _ _ _⟩

/-- A guard being called heads the chain just linked, or follows the guard that called it. -/
theorem Steps.before {w w' : World} {a : CallAct} (h : Call.Steps w links c k a w' links' k') {f : Frame}
    {outer : List Frame} (hp : k'.phase = .before f outer) :
    (∃ rest, a = .chain (f.guard :: rest)) ∨
      ∃ f' outer', k.phase = .before f' outer' ∧ Chain.Next links f'.guard f.guard := by
  have hout : ∀ {k'}, Leaves k k' → k'.phase ≠ .before f outer := by
    intro k' hl hp
    rcases hl.out with ⟨_, _, _, ho⟩ | ⟨_, _, _, ho⟩ | ⟨_, ho⟩ <;> simp [hp] at ho
  cases h with
  | chain _ _ =>
    cases hp
    exact Or.inl ⟨_, rfl⟩
  | @next f' outer' n hp' hl =>
    cases n with
    | inl g =>
      cases hp
      exact Or.inr ⟨f', outer', hp', hl⟩
    | inr r => cases hp
  | @firstListener ls _ _ => cases ls <;> cases hp
  | @nextListener rest _ _ => cases rest <;> cases hp
  | dungling _ _ => exact absurd hp (hout (raiseTo_leaves k (_ :: _) _).1)
  | answer _ _ => exact absurd hp (hout (returnTo_leaves k _ _).1)
  | raise _ => exact absurd hp (hout (raiseTo_leaves k _ _).1)
  | _ => cases hp

end Call

/-! ### The linkings of a run -/

namespace System

/-- The links have come from the linkings `ks`, and these have linked the guards of every call. -/
structure Linked (ks : List (Chain.Linking GuardObj Resolved)) (s : System) : Prop where
  links : s.links = Chain.linkAll (fun _ => none) ks
  guards : ∀ (c : Nat) (k : Call), s.calls[c]? = some k → ∀ x ∈ k.guards, x ∈ Chain.linkedBy ks
  before : ∀ (c : Nat) (k : Call) (f : Frame) (outer : List Frame), s.calls[c]? = some k →
    k.phase = .before f outer → f.guard ∈ Chain.linkedBy ks

variable {s s' : System} {a : SysAct} {ks : List (Chain.Linking GuardObj Resolved)}

/-- The guards of a call, and the one it calls, are linked after a step if a linking adds the guards it links. -/
private theorem linked_calls (hs : Linked ks s) (h : s.step a = some s')
    {ks' : List (Chain.Linking GuardObj Resolved)} (hle : ∀ x ∈ Chain.linkedBy ks, x ∈ Chain.linkedBy ks')
    (hnew : ∀ c objs, a = .call c (.chain objs) → ∀ x ∈ objs, x ∈ Chain.linkedBy ks') {c : Nat} {k : Call}
    (hk : s'.calls[c]? = some k) :
    (∀ x ∈ k.guards, x ∈ Chain.linkedBy ks') ∧
      ∀ f outer, k.phase = .before f outer → f.guard ∈ Chain.linkedBy ks' := by
  rcases step_calls h hk with ⟨hold, -⟩ | ⟨m, msg, x, sc, -, -, -, rfl, -⟩ | ⟨b, k₀, rfl, hk₀, hstep⟩
  · exact ⟨fun x hx => hle x (hs.guards c k hold x hx), fun f outer hp => hle _ (hs.before c k f outer hold hp)⟩
  · exact ⟨fun x hx => absurd hx List.not_mem_nil, fun f outer hp => by cases hp⟩
  · constructor
    · intro x hx
      rcases hstep.guards with hg | rfl
      · exact hle x (hs.guards c k₀ hk₀ x (hg ▸ hx))
      · exact hnew c k.guards rfl x hx
    · intro f outer hp
      rcases hstep.before hp with ⟨rest, rfl⟩ | ⟨f', outer', hp', hnext⟩
      · exact hnew c (f.guard :: rest) rfl f.guard List.mem_cons_self
      · have hmem := hs.before c k₀ f' outer' hk₀ hp'
        rw [hs.links] at hnext
        exact hle _ (Chain.linked_of_next hmem hnext)

theorem linked_step (hs : Linked ks s) (h : s.step a = some s') : ∃ ks', Linked ks' s' := by
  rcases step_links h with ⟨hl, hno⟩ | ⟨d, head, rest, e, rfl, hl⟩
  · have hcalls : ∀ {c : Nat} {k : Call}, s'.calls[c]? = some k → _ := fun hk =>
      linked_calls hs h (fun _ hx => hx) (fun c objs ha => absurd ha (hno c objs)) hk
    exact ⟨ks, hl.trans hs.links, fun c k hk => (hcalls hk).1, fun c k f outer hk => (hcalls hk).2 f outer⟩
  · have hnew : ∀ c objs, SysAct.call d (.chain (head :: rest)) = .call c (.chain objs) →
        ∀ x ∈ objs, x ∈ Chain.linkedBy (ks ++ [⟨head, rest, e⟩]) := by
      intro c objs ha x hx
      cases ha
      exact Chain.mem_linkedBy_concat.2 (Or.inr hx)
    have hcalls : ∀ {c : Nat} {k : Call}, s'.calls[c]? = some k → _ := fun hk =>
      linked_calls hs h (fun _ hx => Chain.mem_linkedBy_concat.2 (Or.inl hx)) hnew hk
    refine ⟨ks ++ [⟨head, rest, e⟩], ?_, fun c k hk => (hcalls hk).1, fun c k f outer hk => (hcalls hk).2 f outer⟩
    rw [hl, hs.links, Chain.linkAll_concat]

theorem linked_of_run {bases : Nat → Option Cls × Option Cls} {acts : List SysAct}
    (h : Run.run step (new bases) acts = some s) : ∃ ks, Linked ks s := by
  refine Run.preserved (I := fun s => ∃ ks, Linked ks s) ?_ ⟨[], rfl, ?_, ?_⟩ h
  · rintro s a s' ⟨ks, hs⟩ hstep
    exact linked_step hs hstep
  · intro c k hk
    simp [new] at hk
  · intro c k f outer hk
    simp [new] at hk

/-- From the guard that a call is in the links lead to a handler. -/
theorem Linked.next (hs : Linked ks s) {f : Frame} {outer : List Frame} {c : Nat} {k : Call}
    (hk : s.calls[c]? = some k) (hp : k.phase = .before f outer) :
    ∃ ahead r, Chain.Path s.links (.inl f.guard) (f.guard :: ahead) r := by
  obtain ⟨l, r, hpath, -⟩ := Chain.path_linkAll (fun _ => none) ks (hs.before c k f outer hk hp)
  rw [← hs.links] at hpath
  cases hpath with
  | step hx hrest => exact ⟨_, r, .step hx hrest⟩

end System

/-! ### Where the guards that follow others are true -/

namespace Truth

variable {truth : Truth} {links : Links} {g : GuardObj}

theorem atNext_of_true (h : ∀ next, links g = some (.inl next) → truth.holds next = true) :
    truth.atNext links g = .callNext := by
  unfold atNext
  split
  · rename_i next hl
    rw [if_pos (h next hl)]
  · rfl

/-- Before a false guard, the call of the guard ends in an exception of its own. -/
theorem step_of_false {next : GuardObj} (hl : links g = some (.inl next)) (hfalse : truth.holds next = false) {c : Nat}
    {k : Call} {f : Frame} {outer : List Frame} (hf : f.guard = g) (hp : k.phase = .before f outer) (w : World) :
    k.step w links c (truth.atNext links g) = some (w, links, k.raiseTo (f :: outer) (.dunglingGuard g)) := by
  have hcustom : next.isCustom = true := by
    by_contra hno
    rw [truth.plain next (by simpa using hno)] at hfalse
    cases hfalse
  have hact : truth.atNext links g = .nextFalse := by simp [atNext, hl, hfalse]
  subst hf
  rw [hact]
  exact (Call.Steps.dungling hp (.nextFalse hl hcustom)).step

/-- Where all guards on the way to the handler find the next one true, the call goes the way that the links show. -/
theorem walk_eq {s : GuardObj ⊕ Resolved} {way : List GuardObj} {h : Resolved} (hpath : Chain.Path links s way h)
    (c : Nat) : ∀ (k : Call) (f : Frame) (outer : List Frame) (ws : List World), s = .inl f.guard →
      (∀ x ∈ way, truth.atNext links x = .callNext) → k.phase = .before f outer → ws.length = way.length →
        truth.walk links c ws k = k.walk links c ws := by
  induction hpath with
  | stop h =>
    intro k f outer ws hs
    cases hs
  | @step x s way h hx hrest ih =>
    intro k f outer ws hs htrue hp hlen
    obtain rfl := Sum.inl.inj hs
    obtain ⟨w, ws, rfl⟩ := List.exists_cons_of_length_eq_add_one hlen
    have hlen' : ws.length = way.length := by simpa using hlen
    rw [List.forall_mem_cons] at htrue
    rw [walk, hp]
    dsimp only
    rw [htrue.1, Call.walk, Call.callNext_eq hp hx w, Option.bind_some, Option.bind_some]
    cases s with
    | inl g => exact ih (k.enterNext (.inl g) f.command f.context (f :: outer)) _ _ ws rfl htrue.2 rfl hlen'
    | inr r =>
      -- the next one is the handler, and the walk is over
      cases hrest
      obtain rfl := List.length_eq_zero_iff.1 hlen'
      rfl

end Truth

/-- From every guard that was linked the links lead to a handler, and a call of the guard calls the next one and so on
up to the handler; there are no cycles but those that were there before. -/
structure LinkedEnd (truth : Truth) (links : Links) (ks : List (Chain.Linking GuardObj Resolved)) : Prop where
  ends : ∀ x ∈ Chain.linkedBy ks, ∃ l h, Chain.Path (Chain.linkAll links ks) (.inl x) l h ∧
    (∀ y ∈ l, y ∈ Chain.linkedBy ks) ∧
    ∀ (c : Nat) (k : Call) (f : Frame) (outer : List Frame), f.guard = x → k.phase = .before f outer →
      (∃ next, Chain.linkAll links ks x = some next ∧ ∀ w,
        k.step w (Chain.linkAll links ks) c (truth.atNext (Chain.linkAll links ks) x) =
          some (w, Chain.linkAll links ks, k.enterNext next f.command f.context (f :: outer))) ∧
      ∀ ws : List World, ws.length = l.length → ∃ k' outer',
        truth.walk (Chain.linkAll links ks) c ws k = some k' ∧ k'.phase = .handling h outer'
  acyclic : ∀ x, Relation.TransGen (Chain.Next (Chain.linkAll links ks)) x x →
    x ∉ Chain.linkedBy ks ∧ Relation.TransGen (Chain.Next links) x x

/-- A call of the guard `x`, made for the proof. -/
private def callOf (x : GuardObj) : Call :=
  { System.begin 0 .send ⟨0, Cls.object⟩ none none with phase := .before ⟨x, ⟨0, Cls.object⟩, .fresh 0⟩ [] }

private theorem true_of_linkedEnd {truth : Truth} {links : Links} {ks : List (Chain.Linking GuardObj Resolved)}
    (h : LinkedEnd truth links ks) {x y : GuardObj} (hxy : Chain.FollowsLast ks x y) : truth.holds y = true := by
  have hx : x ∈ Chain.linkedBy ks := by
    obtain ⟨ks₁, k, ks₂, pre, post, rfl, -, hl, -⟩ := hxy
    exact List.mem_flatMap.2 ⟨k, by simp, by simp [hl]⟩
  have hl : Chain.linkAll links ks x = some (.inl y) := (Chain.next_linkAll_iff hx).2 hxy
  by_contra hfalse
  rw [Bool.not_eq_true] at hfalse
  obtain ⟨_, _, _, _, hcalls⟩ := h.ends x hx
  obtain ⟨⟨next, hnext, hstep⟩, -⟩ := hcalls 0 (callOf x) ⟨x, ⟨0, Cls.object⟩, .fresh 0⟩ [] rfl rfl
  -- the call leaves the guard instead of going on
  rw [hl, Option.some.injEq] at hnext
  have hraise := Truth.step_of_false hl hfalse rfl (show (callOf x).phase = .before ⟨x, ⟨0, Cls.object⟩, .fresh 0⟩ []
    from rfl) (c := 0) (.new fun _ => (none, none))
  rw [hstep, ← hnext] at hraise
  have hsame := (Prod.mk.inj (Prod.mk.inj (Option.some.inj hraise)).2).2
  have hout := (Call.raiseTo_leaves (callOf x) [⟨x, ⟨0, Cls.object⟩, .fresh 0⟩] (.dunglingGuard x)).1.out
  rw [← hsame] at hout
  rcases hout with ⟨_, _, _, hp⟩ | ⟨_, _, _, hp⟩ | ⟨_, hp⟩ <;> cases hp

/-- After any linkings: the links lead from every linked guard to a handler, and there are no cycles but those that
were there before.  And a call of a linked guard calls the next one and so on up to the handler exactly when every
guard object is true that stands behind the last occurrence of a guard in the last list that has this guard.  In a run
of the system every guard of a call is linked in this way, and so is every guard being called. -/
theorem linked_guards_end (truth : Truth) (links : Links) (ks : List (Chain.Linking GuardObj Resolved)) :
    (LinkedEnd truth links ks ↔ ∀ x y, Chain.FollowsLast ks x y → truth.holds y = true) ∧
    (∀ x ∈ Chain.linkedBy ks, ∃ l h, Chain.Path (Chain.linkAll links ks) (.inl x) l h ∧
      ∀ y ∈ l, y ∈ Chain.linkedBy ks) ∧
    (∀ x, Relation.TransGen (Chain.Next (Chain.linkAll links ks)) x x →
      x ∉ Chain.linkedBy ks ∧ Relation.TransGen (Chain.Next links) x x) ∧
    ∀ bases acts s, Run.run System.step (System.new bases) acts = some s →
      (∀ (c : Nat) (k : Call), s.calls[c]? = some k → ∀ x ∈ k.guards, ∃ l h, Chain.Path s.links (.inl x) l h) ∧
      (∀ x, ¬ Relation.TransGen (Chain.Next s.links) x x) ∧
      ∀ (c : Nat) (k : Call) (f : Frame) (outer : List Frame), s.calls[c]? = some k → k.phase = .before f outer →
        ∃ next, s.links f.guard = some next ∧ ∀ w, k.step w s.links c .callNext =
          some (w, s.links, k.enterNext next f.command f.context (f :: outer)) := by
  have hfirst : ∀ {links : Links} {x : GuardObj} {l h}, Chain.Path links (.inl x) l h →
      ∃ next, links x = some next := by
    intro links x l h hpath
    cases hpath with
    | step hx _ => exact ⟨_, hx⟩
  refine ⟨⟨fun h x y => true_of_linkedEnd h, fun htrue => ⟨fun x hx => ?_, fun x hx => Chain.cycle_linkAll hx⟩⟩,
    fun x hx => Chain.path_linkAll links ks hx, fun x hx => Chain.cycle_linkAll hx, fun bases acts s hrun => ?_⟩
  · obtain ⟨l, h, hpath, hmem⟩ := Chain.path_linkAll links ks hx
    have hnext : ∀ y ∈ Chain.linkedBy ks, truth.atNext (Chain.linkAll links ks) y = .callNext :=
      fun y hy => Truth.atNext_of_true fun next hl => htrue y next ((Chain.next_linkAll_iff hy).1 hl)
    refine ⟨l, h, hpath, hmem, ?_⟩
    rintro c k f outer rfl hp
    obtain ⟨next, hl⟩ := hfirst hpath
    refine ⟨⟨next, hl, fun w => ?_⟩, fun ws hlen => ?_⟩
    · rw [hnext f.guard hx]
      exact Call.callNext_eq hp hl w
    · obtain ⟨k', outer', hwalk, hp', -⟩ := Call.walk_enters (c := c) hpath k f outer ws rfl hp hlen
      rw [Truth.walk_eq hpath c k f outer ws rfl (fun y hy => hnext y (hmem y hy)) hp hlen]
      exact ⟨k', outer', hwalk, hp'⟩
  · obtain ⟨ks, hs⟩ := System.linked_of_run hrun
    rw [hs.links]
    refine ⟨fun c k hk x hx => ?_, fun x hx => ?_, fun c k f outer hk hp => ?_⟩
    · obtain ⟨l, h, hpath, -⟩ := Chain.path_linkAll (fun _ => none) ks (hs.guards c k hk x hx)
      exact ⟨l, h, hpath⟩
    · -- a cycle would have been there at the start, where no link is set
      obtain ⟨y, hy, -⟩ := Relation.TransGen.head'_iff.1 (Chain.cycle_linkAll hx).2
      cases hy
    · obtain ⟨l, h, hpath, -⟩ := Chain.path_linkAll (fun _ => none) ks (hs.before c k f outer hk hp)
      obtain ⟨next, hnext⟩ := hfirst hpath
      exact ⟨next, hnext, fun w => Call.callNext_eq hp hnext w⟩

/-! ### A guard with a length -/

namespace System

open UserApp

/-- The `Guard` object of a guard function for `Any`. -/
def guardForAny : GuardObj := .guard 0 0 Cls.any (some 3) none

/-- A class below `BaseGuard`, number 7, whose `__call__` takes a `CreateUser`. -/
def sizedGuard : ClassObj :=
  ⟨7, [], [⟨"self", .empty⟩, ⟨"command", .cls CreateUser⟩, ⟨"context", .generic 0 (some [CTX_MARKER])⟩]⟩

/-- An object of it, on which its `__len__` returns 0. -/
def emptyGuard : GuardObj := .custom 0 sizedGuard.cls

/-- All guards are true but this one. -/
def emptyFalse : Truth where
  holds g := g ≠ emptyGuard
  plain g h := by
    rw [decide_eq_true_iff]
    rintro rfl
    cases h

/-- Both guards are registered, and a `CreateUser` is sent.  The first one has been called. -/
def beforeEmpty : List SysAct :=
  setup ++ [.world (.define [Cls.baseGuard]), .world (.preHandle 0 .listed (guardFunc 3 Cls.any)),
    .world (.addGuard 0 .listed (.cls sizedGuard)), .world (.incl 0)] ++
    sendUpTo 0 ⟨0, CreateUser⟩ [guardForAny, emptyGuard]

/-- The exception a call has ended in. -/
def endedIn (k : Call) : Option PyErr :=
  match k.phase with
  | .done (.error e) => some e
  | _ => none

/-- The first guard is linked to the empty one.  It finds this one false, and the send ends in `DunglingGuardError`. -/
theorem empty_guard_dangles :
    (∀ e, ¬ LinkedEnd emptyFalse (fun _ => none) [⟨guardForAny, [emptyGuard], e⟩]) ∧
      ∃ s s' k, Run.run step (new bases) beforeEmpty = some s ∧ s.links guardForAny = some (.inl emptyGuard) ∧
        s.step (.call 0 (emptyFalse.atNext s.links guardForAny)) = some s' ∧ s'.calls[0]? = some k ∧
        endedIn k = some (.dunglingGuard guardForAny) := by
  constructor
  · intro e hend
    have hfollows : Chain.FollowsLast [⟨guardForAny, [emptyGuard], e⟩] guardForAny emptyGuard :=
      ⟨[], _, [], [], [], rfl, by simp [Chain.linkedBy], rfl, by decide⟩
    exact absurd (true_of_linkedEnd hend hfollows) (by decide)
  · have hrun : ((Run.run step (new bases) beforeEmpty).bind fun s =>
        (s.step (.call 0 (emptyFalse.atNext s.links guardForAny))).bind fun s' => s'.calls[0]?.map fun k =>
          ((s.links guardForAny).bind Sum.getLeft?, endedIn k)) =
        some (some emptyGuard, some (.dunglingGuard guardForAny)) := by
      decide +kernel
    obtain ⟨s, hs, hrun⟩ := Option.bind_eq_some_iff.1 hrun
    obtain ⟨s', hs', hrun⟩ := Option.bind_eq_some_iff.1 hrun
    obtain ⟨k, hk, hres⟩ := Option.map_eq_some_iff.1 hrun
    obtain ⟨hlink, hend⟩ := Prod.mk.inj hres
    obtain ⟨next, hnext, hleft⟩ := Option.bind_eq_some_iff.1 hlink
    rw [Sum.getLeft?_eq_some_iff] at hleft
    exact ⟨s, s', k, hs, hleft ▸ hnext, hs', hk, hend⟩

end System

end Anywise
