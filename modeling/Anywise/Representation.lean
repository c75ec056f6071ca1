import Anywise.Crossing
import Anywise.Linking
import Mathlib.Data.List.Dedup
import Mathlib.Data.List.Perm.Subperm

/-!
# `repr` of a guard

`BaseGuard.__repr__` shows the next guard inside the text of the guard, and that one the next: along a cycle of links
it would not come to an end.  How deep it goes is how far the links lead from guard to guard (`repr_eq_none_iff`).
Since sends make no cycles, in every run the depth is bounded by the number of guards that were linked, and the text
of a guard that is being called tells which guards and which handler its command goes through (`repr_tells_way`).
-/

namespace Anywise

/-- How the objects are shown whose `__repr__` is not the library's: the names of classes, and handlers. -/
structure Names where
  className : Cls → String
  handler : Resolved → String

namespace GuardObj

/-- `self.__class__.__name__` -/
def className (names : Names) : GuardObj → String
  | .guard .. => "Guard"
  | .custom _ c => names.className c

/-- `BaseGuard.__repr__` with at most `depth` calls inside one another; `none` when these are not enough.  The guards
are true: a false one would be left out, as `__call__` would not go on to it. -/
def repr (names : Names) (links : Links) : Nat → GuardObj → Option String
  | 0, _ => none
  | depth + 1, g =>
    let base := g.className names ++ "("
    match links g with
    | none => some (base ++ ")")
    | some (.inl next) => (repr names links depth next).map fun text => base ++ ("next_guard=" ++ text) ++ ")"
    | some (.inr h) => some (base ++ ("next_guard=" ++ names.handler h) ++ ")")

end GuardObj

/-- The text of guards inside one another, with `inner` inside the last one. -/
def Names.nested (names : Names) (inner : String) : List GuardObj → String
  | [] => inner
  | g :: gs => g.className names ++ "(" ++ ("next_guard=" ++ names.nested inner gs) ++ ")"

namespace GuardObj

variable {names : Names} {links : Links}

/-- The calls are not enough exactly when as many links lead on from guard to guard. -/
theorem repr_eq_none_iff {depth : Nat} {g : GuardObj} :
    g.repr names links depth = none ↔
      ∃ way : List GuardObj, way.length = depth ∧ (g :: way).IsChain (Chain.Next links) := by
  induction depth generalizing g with
  | zero => exact ⟨fun _ => ⟨[], rfl, List.isChain_singleton g⟩, fun _ => rfl⟩
  | succ depth ih =>
    rw [repr]
    constructor
    · intro hnone
      cases hl : links g with
      | none => simp [hl] at hnone
      | some n =>
        cases n with
        | inr h => simp [hl] at hnone
        | inl next =>
          have hnext : next.repr names links depth = none := by simpa [hl] using hnone
          obtain ⟨way, hlen, hway⟩ := ih.1 hnext
          exact ⟨next :: way, by simp [hlen], .cons_cons hl hway⟩
    · rintro ⟨way, hlen, hway⟩
      obtain ⟨next, way, rfl⟩ := List.exists_cons_of_length_eq_add_one hlen
      obtain ⟨hl, hway⟩ := List.isChain_cons_cons.1 hway
      have hnext : next.repr names links depth = none := ih.2 ⟨way, by simpa using hlen, hway⟩
      have hl' : links g = some (.inl next) := hl
      simp [hl', hnext]

/-- Where the links lead to a handler, the text shows the way there. -/
theorem repr_of_path {s : GuardObj ⊕ Resolved} {way : List GuardObj} {h : Resolved}
    (hpath : Chain.Path links s way h) :
    ∀ (g : GuardObj) (depth : Nat), s = .inl g → way.length ≤ depth →
      g.repr names links depth = some (names.nested (names.handler h) way) := by
  induction hpath with
  | stop h =>
    intro g depth hs
    cases hs
  | @step x s way h hx hrest ih =>
    intro g depth hs hle
    obtain rfl := Sum.inl.inj hs
    obtain ⟨depth, rfl⟩ : ∃ d, depth = d + 1 := ⟨depth - 1, by simp at hle; omega⟩
    have hle' : way.length ≤ depth := by simpa using hle
    rw [repr, hx]
    cases s with
    | inl next => simp [ih next depth rfl hle', Names.nested]
    | inr r =>
      cases hrest
      rfl

end GuardObj

namespace System

/-- The guard objects that the sends have linked. -/
def linked (s : System) : List GuardObj := (s.calls.flatMap Call.guards).dedup

variable {s : System}

private theorem mem_linked_of_follows {g g' : GuardObj} (h : s.Follows g g') : g ∈ s.linked ∧ g' ∈ s.linked := by
  obtain ⟨d, k, pre, post, hk, -, hg⟩ := h
  have hmem : ∀ x ∈ k.guards, x ∈ s.linked := fun x hx =>
    List.mem_dedup.2 (List.mem_flatMap.2 ⟨k, List.mem_of_getElem? hk, hx⟩)
  exact ⟨hmem g (by simp [hg]), hmem g' (by simp [hg])⟩

/-- Without cycles, a way along links of the sends meets no guard twice. -/
private theorem length_le_linked (hs : s.Traced) (hno : ∀ x, ¬ Relation.TransGen (Chain.Next s.links) x x)
    {g : GuardObj} {way : List GuardObj} (hway : (g :: way).IsChain (Chain.Next s.links)) :
    way.length ≤ s.linked.length := by
  have hpair : (g :: way).Pairwise (Relation.TransGen (Chain.Next s.links)) :=
    List.isChain_iff_pairwise.1 (hway.imp fun {_ _} h => Relation.TransGen.single h)
  have hnodup : way.Nodup := by
    refine (List.pairwise_cons.1 hpair).2.imp fun {x y} hxy heq => ?_
    subst heq
    exact hno x hxy
  have hsub : ∀ x ∈ way, x ∈ s.linked := by
    intro x hx
    have hreach := (List.pairwise_cons.1 hpair).1 x hx
    obtain ⟨y, -, hyx⟩ := Relation.TransGen.tail'_iff.1 hreach
    exact (mem_linked_of_follows (hs.toGuard y x hyx)).2
  exact (List.subperm_of_subset hnodup hsub).length_le

/-- In every run `repr` of any guard comes to an end, in at most as many calls inside one another as guards have been
linked and one more.  While a guard is being called, its text shows the guards and the handler that its command
goes to, one inside the other, as long as nobody links in between. -/
theorem repr_tells_way (bases : Nat → Option Cls × Option Cls) (acts : List SysAct) (s : System)
    (hrun : Run.run step (new bases) acts = some s) (names : Names) :
    (∀ (g : GuardObj) (depth : Nat), s.linked.length < depth → ∃ text, g.repr names s.links depth = some text) ∧
    ∀ (c : Nat) (k : Call) (f : Frame) (outer : List Frame), s.calls[c]? = some k → k.method = .send →
      k.phase = .before f outer → ∃ ahead h,
        (∀ depth, s.linked.length < depth → f.guard.repr names s.links depth =
          some (names.nested (names.handler h) (f.guard :: ahead))) ∧
        ∀ ws : List World, ws.length = ahead.length + 1 → ∃ k' outer', k.walk s.links c ws = some k' ∧
          k'.phase = .handling h outer' ∧ k'.entered = k.entered ++ ahead ∧ k'.deliveries = [(h, k.msg)] := by
  have htraced := traced_of_run hrun
  obtain ⟨ks, hlinked⟩ := linked_of_run hrun
  have hno : ∀ x, ¬ Relation.TransGen (Chain.Next s.links) x x := by
    intro x hx
    rw [hlinked.links] at hx
    -- a cycle would have been there at the start, where no link is set
    obtain ⟨y, hy, -⟩ := Relation.TransGen.head'_iff.1 (Chain.cycle_linkAll hx).2
    cases hy
  have hends : ∀ (g : GuardObj) (depth : Nat), s.linked.length < depth → g.repr names s.links depth ≠ none := by
    intro g depth hlt hnone
    obtain ⟨way, hlen, hway⟩ := GuardObj.repr_eq_none_iff.1 hnone
    have hle := length_le_linked htraced hno hway
    omega
  refine ⟨fun g depth hlt => Option.ne_none_iff_exists'.1 (hends g depth hlt), ?_⟩
  intro c k f outer hk hsend hp
  obtain ⟨hnested, hrouted⟩ := htraced.nested c k hk hsend
  have hcommand : f.command = k.msg := by
    have hframes := hnested.frames
    rw [hp] at hframes
    exact (hframes f List.mem_cons_self).1
  obtain ⟨ahead, h, hpath⟩ := hlinked.next hk hp
  refine ⟨ahead, h, fun depth hlt => ?_, fun ws hlen => ?_⟩
  · have hle : ahead.length ≤ s.linked.length := length_le_linked htraced hno hpath.isChain
    have hle : (f.guard :: ahead).length ≤ depth := by
      rw [List.length_cons]
      omega
    exact GuardObj.repr_of_path hpath f.guard depth rfl hle
  · obtain ⟨k', outer', hwalk, hp', hent, hdel⟩ := Call.walk_enters hpath k f outer ws rfl hp hlen
    refine ⟨k', outer', hwalk, hp', hent, ?_⟩
    rw [hdel, hrouted.before f outer hp, hcommand, List.nil_append]

/-! ### A send through two guards -/

open UserApp

/-- Guards 3 and 4 apply to the command, and the first one is being called. -/
def twoGuards : List SysAct :=
  setup ++ [.world (.preHandle 0 .listed (guardFunc 3 Cls.any)),
      .world (.preHandle 0 .listed (guardFunc 4 CreateUser)), .world (.incl 0)] ++
    sendUpTo 0 ⟨0, CreateUser⟩ [.guard 0 0 Cls.any (some 3) none, .guard 0 1 CreateUser (some 4) none]

private def calling (k : Call) : Option GuardObj :=
  match k.phase with
  | .before f _ => some f.guard
  | _ => none

/-- Handlers are shown by one name. -/
def userNames : Names := ⟨fun _ => "AuthService", fun _ => "create_user"⟩

/-- Three calls inside one another are enough for the text of the first guard. -/
theorem twoGuards_shown :
    ∃ s k f outer ahead h, Run.run step (new bases) twoGuards = some s ∧ s.calls[0]? = some k ∧
      k.phase = .before f outer ∧ f.guard.repr userNames s.links 3 =
        some (userNames.nested (userNames.handler h) (f.guard :: ahead)) ∧
      userNames.nested (userNames.handler h) (f.guard :: ahead) =
        "Guard(next_guard=Guard(next_guard=create_user))" := by
  have hrun : (Run.run step (new bases) twoGuards).map (fun s =>
      (s.linked.length, s.calls.map fun k => (k.method, calling k, (calling k).bind (·.repr userNames s.links 3)))) =
      some (2, [(.send, some (.guard 0 0 Cls.any (some 3) none),
        some "Guard(next_guard=Guard(next_guard=create_user))")]) := by
    decide +kernel
  obtain ⟨s, hs, hout⟩ := Option.map_eq_some_iff.1 hrun
  rcases hcalls : s.calls with _ | ⟨k, _ | ⟨_, _⟩⟩ <;> simp [hcalls] at hout
  obtain ⟨hlen, hsend, hcalling, htext⟩ := hout
  have hk : s.calls[0]? = some k := by rw [hcalls]; rfl
  obtain ⟨f, outer, hp⟩ : ∃ f outer, k.phase = .before f outer := by
    unfold calling at hcalling
    split at hcalling
    · exact ⟨_, _, ‹_›⟩
    · cases hcalling
  obtain ⟨ahead, h, hshown, -⟩ := (repr_tells_way bases twoGuards s hs userNames).2 0 k f outer hk hsend hp
  have hrepr := hshown 3 (by omega)
  refine ⟨s, k, f, outer, ahead, h, hs, hk, hp, hrepr, ?_⟩
  have hf : calling k = some f.guard := by rw [calling, hp]
  rw [hf, Option.bind_some, hrepr] at htext
  exact Option.some.inj htext

end System

end Anywise
