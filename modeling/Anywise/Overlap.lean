import Anywise.Manager
import Anywise.Registration
import Mathlib.Data.String.Basic
import Mathlib.Logic.Equiv.Basic

/-!
# Methods of one class for the same command

Of several methods of a class that take commands of one type the last one should be used.  `get_methodmetas` goes
through the members sorted by name, and the last meta stays, so it is the method with the greatest name
(`last_method_iff`).  A renaming changes which one that is as soon as there are two of them.
-/

namespace Anywise

section Covering

variable (g : ClassGraph) (base : Cls)

/-- The member is a public method that takes messages of type `T`. -/
def MethodCovers (m : String × Func) (T : Cls) : Prop :=
  isPrivate m.1 = false ∧ ∃ self params, m.2.params = self :: params ∧ Accepts g base params T

/-- `m` is the last member that covers `T`. -/
def LastCovering (ms : List (String × Func)) (T : Cls) (m : String × Func) : Prop :=
  ∃ pre post, ms = pre ++ m :: post ∧ MethodCovers g base m T ∧ ∀ n ∈ post, ¬ MethodCovers g base n T

/-- `fn` is the method with the greatest name among those that cover `T`. -/
def GreatestName (ms : List (String × Func)) (T : Cls) (fn : Func) : Prop :=
  ∃ name, (name, fn) ∈ ms ∧ MethodCovers g base (name, fn) T ∧ ∀ n ∈ ms, MethodCovers g base n T → n.1 ≤ name

end Covering

/-- The class with its methods renamed. -/
def ClassObj.rename (c : ClassObj) (f : String → String) : ClassObj :=
  { c with body := c.body.map fun m => (f m.1, m.2) }

/-- `f` renames the public methods of the class, to public names and one by one. -/
structure Renames (c : ClassObj) (f : String → String) : Prop where
  inj : ∀ m ∈ c.body, ∀ n ∈ c.body, f m.1 = f n.1 → m.1 = n.1
  «public» : ∀ m ∈ c.body, isPrivate m.1 = false → isPrivate (f m.1) = false
  «private» : ∀ m ∈ c.body, isPrivate m.1 = true → f m.1 = m.1

/-- The function a send of a `T` resolves after the class has been given to the registry and this been included. -/
def dispatched (g : ClassGraph) (ord : SetOrder) (r : MessageRegistry) (c : ClassObj) (T : Cls) : Option Func :=
  ((Managers.new.include [(r._register g ord (.cls c)).1]).handlerManager.handlerMetas.get? T).map FuncMeta.handler

variable {g : ClassGraph} {ord : SetOrder} {base owner : Cls} {r : MessageRegistry} {c : ClassObj}
  {metas : List FuncMeta} {T : Cls}

/-! ### The last meta -/

theorem exists_lastCovering {ms : List (String × Func)} {m : String × Func} (hm : m ∈ ms)
    (hc : MethodCovers g base m T) : ∃ n, LastCovering g base ms T n := by
  induction ms generalizing m with
  | nil => cases hm
  | cons k ms ih =>
    by_cases hrest : ∃ n ∈ ms, MethodCovers g base n T
    · obtain ⟨n, hn, hcn⟩ := hrest
      obtain ⟨l, pre, post, rfl, hl, hpost⟩ := ih hn hcn
      exact ⟨l, k :: pre, post, rfl, hl, hpost⟩
    · have hno : ∀ n ∈ ms, ¬ MethodCovers g base n T := fun n hn hcn => hrest ⟨n, hn, hcn⟩
      have hk : m = k := (List.mem_cons.1 hm).resolve_right fun hin => hno m hin hc
      exact ⟨k, [], ms, rfl, hk ▸ hc, hno⟩

private theorem lastOf_methodMetas {m : String × Func} (h : methodMetas g ord base owner m = .ok metas) :
    (MethodCovers g base m T → ∃ x, Dict.lastOf T (metas.map fun m => (m.messageType, m)) = some x ∧
        x.handler = m.2) ∧
      (¬ MethodCovers g base m T → Dict.lastOf T (metas.map fun m => (m.messageType, m)) = none) := by
  have hcov : (Dict.lastOf T (metas.map fun m => (m.messageType, m))).isSome ↔ MethodCovers g base m T := by
    rw [Dict.lastOf_isSome, MethodCovers, ← methodMetas_accepts h]
    simp [and_comm]
  constructor
  · intro hc
    obtain ⟨x, hx⟩ := Option.isSome_iff_exists.1 (hcov.2 hc)
    refine ⟨x, hx, ?_⟩
    obtain ⟨y, hy, heq⟩ := List.mem_map.1 (Dict.mem_of_lastOf hx)
    obtain rfl := (Prod.mk.inj heq).2
    rcases methodMetas_ok h with rfl | ⟨self, msg, rest, types, -, -, -, -, rfl⟩
    · cases hy
    · exact (mem_metasOf hy).2.1
  · exact fun hc => Option.not_isSome_iff_eq_none.1 (mt hcov.1 hc)

private theorem lastOf_loop_none {ms : List (String × Func)}
    (h : methodMetasLoop g ord base owner ms = .ok metas) (hno : ∀ n ∈ ms, ¬ MethodCovers g base n T) :
    Dict.lastOf T (metas.map fun m => (m.messageType, m)) = none := by
  induction ms generalizing metas with
  | nil =>
    cases h
    rfl
  | cons n ms ih =>
    obtain ⟨l, rest, hl, hrest, rfl⟩ := methodMetasLoop_cons h
    have hn := (lastOf_methodMetas (T := T) hl).2 (hno n List.mem_cons_self)
    rw [List.map_append, Dict.lastOf_append, ih hrest fun k hk => hno k (List.mem_cons_of_mem n hk), hn]
    rfl

/-- The meta that stays is made from the last member that covers the type. -/
private theorem lastOf_loop {ms : List (String × Func)} {m : String × Func}
    (h : methodMetasLoop g ord base owner ms = .ok metas) (hm : LastCovering g base ms T m) :
    ∃ x, Dict.lastOf T (metas.map fun m => (m.messageType, m)) = some x ∧ x.handler = m.2 := by
  induction ms generalizing metas with
  | nil =>
    obtain ⟨pre, post, hnil, -⟩ := hm
    simp at hnil
  | cons n ms ih =>
    obtain ⟨l, rest, hl, hrest, rfl⟩ := methodMetasLoop_cons h
    rw [List.map_append, Dict.lastOf_append]
    obtain ⟨_ | ⟨k, pre⟩, post, hms, hc, hpost⟩ := hm
    · obtain ⟨rfl, rfl⟩ := List.cons.inj hms
      obtain ⟨x, hx, hxf⟩ := (lastOf_methodMetas hl).1 hc
      exact ⟨x, by rw [lastOf_loop_none hrest hpost, Option.none_or, hx], hxf⟩
    · obtain ⟨-, rfl⟩ := List.cons.inj hms
      obtain ⟨x, hx, hxf⟩ := ih hrest ⟨pre, post, rfl, hc, hpost⟩
      exact ⟨x, by rw [hx, Option.some_or], hxf⟩

/-! ### Sorted members -/

theorem getmembers_sorted (c : ClassObj) : c.getmembers.Pairwise fun a b => a.1 ≤ b.1 := by
  have : Std.Total fun a b : String × Func => a.1 ≤ b.1 := ⟨fun a b => le_total a.1 b.1⟩
  have : IsTrans (String × Func) fun a b => a.1 ≤ b.1 := ⟨fun _ _ _ => le_trans⟩
  exact List.pairwise_insertionSort _ c.body

/-- The last covering member in the order of the names has the greatest name. -/
theorem greatest_of_last {m : String × Func} (hm : LastCovering g base c.getmembers T m) :
    m ∈ c.body ∧ MethodCovers g base m T ∧ ∀ n ∈ c.body, MethodCovers g base n T → n.1 ≤ m.1 := by
  obtain ⟨pre, post, hms, hc, hpost⟩ := hm
  have hsorted := getmembers_sorted c
  rw [hms, List.pairwise_append] at hsorted
  refine ⟨mem_getmembers.1 (by rw [hms]; simp), hc, fun n hn hcn => ?_⟩
  have hmem : n ∈ pre ++ m :: post := hms ▸ mem_getmembers.2 hn
  rcases List.mem_append.1 hmem with hpre | hrest
  · exact hsorted.2.2 n hpre m List.mem_cons_self
  · rcases List.mem_cons.1 hrest with rfl | hin
    · exact le_rfl
    · exact absurd hcn (hpost n hin)

/-! ### What is dispatched -/

private theorem dispatched_eq (hb : r.commandBase = some base) (hok : getMethodmetas g ord base c = .ok metas)
    (T : Cls) : dispatched g ord r c T =
      ((Dict.lastOf T (metas.map fun m => (m.messageType, m))).or (r.commandMapping.get? T)).map
        FuncMeta.handler := by
  have hx : phase g ord r.commandBase (.cls c) = .ok metas := by
    rw [hb]
    exact hok
  have hget := (MessageRegistry._register_spec g ord r (.cls c)).2 T
  rw [metaFor_of_phase hx] at hget
  unfold dispatched
  simp only [Managers.include, Managers.includeOne, List.foldl_cons, List.foldl_nil,
    HandlerManager.handlerMetas_includeGuards, HandlerManager.includeHandlers, Managers.new, HandlerManager.new]
  rw [Dict.get?_update_items, hget]
  simp

/-- Of the methods that cover a type the one with the greatest name is dispatched. -/
theorem dispatched_greatest (hb : r.commandBase = some base) (hok : getMethodmetas g ord base c = .ok metas)
    {m : String × Func} (hm : m ∈ c.body) (hc : MethodCovers g base m T) :
    ∃ x ∈ c.body, MethodCovers g base x T ∧ (∀ n ∈ c.body, MethodCovers g base n T → n.1 ≤ x.1) ∧
      dispatched g ord r c T = some x.2 := by
  obtain ⟨x, hx⟩ := exists_lastCovering (mem_getmembers.2 hm) hc
  obtain ⟨hmem, hcx, hle⟩ := greatest_of_last hx
  obtain ⟨y, hy, hyx⟩ := lastOf_loop (getMethodmetas_ok hok).1 hx
  exact ⟨x, hmem, hcx, hle, by rw [dispatched_eq hb hok, hy, Option.some_or, Option.map_some, hyx]⟩

theorem dispatched_of_uncovered (hb : r.commandBase = some base) (hok : getMethodmetas g ord base c = .ok metas)
    (hno : ∀ n ∈ c.body, ¬ MethodCovers g base n T) :
    dispatched g ord r c T = (r.commandMapping.get? T).map FuncMeta.handler := by
  have hnone : Dict.lastOf T (metas.map fun m => (m.messageType, m)) = none :=
    lastOf_loop_none (getMethodmetas_ok hok).1 fun n hn => hno n (mem_getmembers.1 hn)
  rw [dispatched_eq hb hok, hnone, Option.none_or]

private theorem eq_of_name (hnames : (c.body.map Prod.fst).Nodup) {m n : String × Func} (hm : m ∈ c.body)
    (hn : n ∈ c.body) (h : m.1 = n.1) : m = n :=
  List.inj_on_of_nodup_map hnames hm hn h

theorem dispatched_iff_greatest (hb : r.commandBase = some base) (hok : getMethodmetas g ord base c = .ok metas)
    (hnames : (c.body.map Prod.fst).Nodup) {m : String × Func} (hm : m ∈ c.body) (hc : MethodCovers g base m T)
    (fn : Func) : dispatched g ord r c T = some fn ↔ GreatestName g base c.body T fn := by
  obtain ⟨x, hx, hcx, hle, hdisp⟩ := dispatched_greatest hb hok hm hc
  rw [hdisp, Option.some.injEq]
  constructor
  · rintro rfl
    exact ⟨x.1, hx, hcx, hle⟩
  · rintro ⟨name, hmem, hcn, hmax⟩
    have heq : x.1 = name := le_antisymm (hmax x hx hcx) (hle (name, fn) hmem hcn)
    rw [eq_of_name hnames hx hmem heq]

/-! ### Renaming -/

section Rename

variable {f : String → String}

theorem Renames.isPrivate (hf : Renames c f) {m : String × Func} (hm : m ∈ c.body) :
    isPrivate (f m.1) = Anywise.isPrivate m.1 := by
  cases hp : Anywise.isPrivate m.1 with
  | true => rw [hf.private m hm hp, hp]
  | false => exact hf.public m hm hp

theorem mem_rename {n : String × Func} : n ∈ (c.rename f).body ↔ ∃ m ∈ c.body, (f m.1, m.2) = n := List.mem_map

theorem covers_rename (hf : Renames c f) {m : String × Func} (hm : m ∈ c.body) :
    MethodCovers g base (f m.1, m.2) T ↔ MethodCovers g base m T := by
  unfold MethodCovers
  rw [hf.isPrivate hm]

private theorem methodMetas_rename (hf : Renames c f) {m : String × Func} (hm : m ∈ c.body) :
    methodMetas g ord base owner (f m.1, m.2) = methodMetas g ord base owner m := by
  unfold methodMetas
  rw [hf.isPrivate hm]

/-- The class can be registered under the new names as well. -/
theorem getMethodmetas_rename (hf : Renames c f) (hok : getMethodmetas g ord base c = .ok metas) :
    ∃ metas', getMethodmetas g ord base (c.rename f) = .ok metas' := by
  obtain ⟨hloop, hne⟩ := getMethodmetas_ok hok
  have hmember : ∀ n ∈ (c.rename f).getmembers, ∃ m ∈ c.body, (f m.1, m.2) = n := fun n hn =>
    mem_rename.1 (mem_getmembers.1 hn)
  cases hres : methodMetasLoop g ord base (c.rename f).cls (c.rename f).getmembers with
  | error e =>
    obtain ⟨pre, n, post, hms, -, herr⟩ := methodMetasLoop_error.1 hres
    obtain ⟨m, hm, rfl⟩ := hmember n (by rw [hms]; simp)
    obtain ⟨l, hl⟩ := methodMetasLoop_each hloop (mem_getmembers.2 hm)
    have hsame : methodMetas g ord base c.cls (f m.1, m.2) = .error e := herr
    rw [methodMetas_rename hf hm, hl] at hsame
    cases hsame
  | ok metas' =>
    obtain ⟨x, hx⟩ := List.exists_mem_of_ne_nil metas hne
    obtain ⟨m, hm, l, hl, hxl⟩ := (methodMetasLoop_ok hloop).1 hx
    have hbody := mem_getmembers.1 hm
    have hmem : x ∈ metas' := by
      refine (methodMetasLoop_ok hres).2 ⟨(f m.1, m.2), mem_getmembers.2 (mem_rename.2 ⟨m, hbody, rfl⟩), l, ?_, hxl⟩
      show methodMetas g ord base c.cls (f m.1, m.2) = .ok l
      rw [methodMetas_rename hf hbody, hl]
    refine ⟨metas', ?_⟩
    unfold getMethodmetas
    rw [hres]
    cases metas' with
    | nil => cases hmem
    | cons y ys => rfl

/-- Exchanging the names of two public methods. -/
theorem renames_swap (c : ClassObj) {m n : String × Func} (hm : isPrivate m.1 = false) (hn : isPrivate n.1 = false) :
    Renames c (Equiv.swap m.1 n.1) where
  inj _ _ _ _ h := (Equiv.swap m.1 n.1).injective h
  «public» k _ hk := by
    by_cases hkm : k.1 = m.1
    · rw [hkm, Equiv.swap_apply_left]
      exact hn
    · by_cases hkn : k.1 = n.1
      · rw [hkn, Equiv.swap_apply_right]
        exact hm
      · rw [Equiv.swap_apply_of_ne_of_ne hkm hkn]
        exact hk
  «private» k _ hk := by
    have hkm : k.1 ≠ m.1 := fun h => by simp [h, hm] at hk
    have hkn : k.1 ≠ n.1 := fun h => by simp [h, hn] at hk
    exact Equiv.swap_apply_of_ne_of_ne hkm hkn

/-- Where two functions cover a type, exchanging the greatest name with that of the other one changes the winner. -/
private theorem swap_changes (hb : r.commandBase = some base) (hok : getMethodmetas g ord base c = .ok metas)
    (hnames : (c.body.map Prod.fst).Nodup) {x y : String × Func} (hcx : MethodCovers g base x T)
    (hle : ∀ n ∈ c.body, MethodCovers g base n T → n.1 ≤ x.1) (hy : y ∈ c.body)
    (hcy : MethodCovers g base y T) :
    Renames c (Equiv.swap x.1 y.1) ∧ dispatched g ord r (c.rename (Equiv.swap x.1 y.1)) T = some y.2 := by
  have hf : Renames c (Equiv.swap x.1 y.1) := renames_swap c hcx.1 hcy.1
  obtain ⟨metas', hok'⟩ := getMethodmetas_rename hf hok
  refine ⟨hf, ?_⟩
  have hnames' : ((c.rename (Equiv.swap x.1 y.1)).body.map Prod.fst).Nodup := by
    have hmap : (c.rename (Equiv.swap x.1 y.1)).body.map Prod.fst = (c.body.map Prod.fst).map (Equiv.swap x.1 y.1) := by
      simp [ClassObj.rename]
    rw [hmap]
    exact hnames.map (Equiv.swap x.1 y.1).injective
  have hymem : (Equiv.swap x.1 y.1 y.1, y.2) ∈ (c.rename (Equiv.swap x.1 y.1)).body := mem_rename.2 ⟨y, hy, rfl⟩
  have hycov := (covers_rename hf hy).2 hcy
  rw [dispatched_iff_greatest hb hok' hnames' hymem hycov]
  refine ⟨_, hymem, hycov, ?_⟩
  -- the name of `y` is now the one that was the greatest
  rintro n hn hcn
  obtain ⟨k, hk, rfl⟩ := mem_rename.1 hn
  have hck := (covers_rename hf hk).1 hcn
  show Equiv.swap x.1 y.1 k.1 ≤ Equiv.swap x.1 y.1 y.1
  rw [Equiv.swap_apply_right]
  by_cases hkx : k.1 = x.1
  · rw [hkx, Equiv.swap_apply_left]
    exact hle y hy hcy
  · by_cases hky : k.1 = y.1
    · rw [hky, Equiv.swap_apply_right]
    · rw [Equiv.swap_apply_of_ne_of_ne hkx hky]
      exact hle k hk hck

end Rename

/-! ### Which method is used -/

/-- For each type the last of the methods that cover it is dispatched exactly when it has the greatest name among
them.  The new names of a renaming never change what is dispatched exactly when no two methods cover one type. -/
theorem last_method_iff (g : ClassGraph) (ord : SetOrder) (r : MessageRegistry) (c : ClassObj) (base : Cls)
    (metas : List FuncMeta) (hb : r.commandBase = some base) (hok : getMethodmetas g ord base c = .ok metas)
    (hnames : (c.body.map Prod.fst).Nodup) :
    (∀ T m, LastCovering g base c.body T m →
      (dispatched g ord r c T = some m.2 ↔ GreatestName g base c.body T m.2)) ∧
    ((∀ f, Renames c f → ∀ T, dispatched g ord r (c.rename f) T = dispatched g ord r c T) ↔
      ∀ T, ∀ m ∈ c.body, ∀ n ∈ c.body, MethodCovers g base m T → MethodCovers g base n T → m.2 = n.2) := by
  refine ⟨?_, ?_, ?_⟩
  · rintro T m ⟨pre, post, hbody, hc, -⟩
    exact dispatched_iff_greatest hb hok hnames (by rw [hbody]; simp) hc m.2
  · intro hinv T m hm n hn hcm hcn
    obtain ⟨x, hx, hcx, hle, hdisp⟩ := dispatched_greatest (r := r) hb hok hm hcm
    have hall : ∀ y ∈ c.body, MethodCovers g base y T → y.2 = x.2 := by
      intro y hy hcy
      obtain ⟨hf, hswap⟩ := swap_changes (r := r) hb hok hnames hcx hle hy hcy
      rw [hinv _ hf T, hdisp] at hswap
      exact (Option.some.inj hswap).symm
    rw [hall m hm hcm, hall n hn hcn]
  · intro hone f hf T
    obtain ⟨metas', hok'⟩ := getMethodmetas_rename hf hok
    by_cases hcov : ∃ m ∈ c.body, MethodCovers g base m T
    · obtain ⟨m, hm, hcm⟩ := hcov
      obtain ⟨x, hx, hcx, -, hdisp⟩ := dispatched_greatest (r := r) hb hok hm hcm
      obtain ⟨y, hy, hcy, -, hdisp'⟩ := dispatched_greatest (r := r) hb hok' (mem_rename.2 ⟨m, hm, rfl⟩)
        ((covers_rename hf hm).2 hcm)
      obtain ⟨k, hk, rfl⟩ := mem_rename.1 hy
      have heq := hone T k hk x hx ((covers_rename hf hk).1 hcy) hcx
      rw [hdisp, hdisp', ← heq]
    · have hno : ∀ n ∈ c.body, ¬ MethodCovers g base n T := fun n hn hcn => hcov ⟨n, hn, hcn⟩
      have hno' : ∀ n ∈ (c.rename f).body, ¬ MethodCovers g base n T := by
        intro n hn hcn
        obtain ⟨k, hk, rfl⟩ := mem_rename.1 hn
        exact hno k hk ((covers_rename hf hk).1 hcn)
      rw [dispatched_of_uncovered hb hok hno, dispatched_of_uncovered hb hok' hno']

/-! ### A service with two methods for one command -/

namespace UserService

/-- `UserCommand` and `CreateUser`, numbers 4 and 5. -/
def commands : ClassGraph := (ClassGraph.builtin.define [Cls.object]).define [4]

def handle : Func := ⟨0, [⟨"self", .empty⟩, ⟨"cmd", .cls 4⟩], true⟩

def create : Func := ⟨1, [⟨"self", .empty⟩, ⟨"cmd", .cls 5⟩], true⟩

/-- `handle` for all commands of users, and below it `create` for `CreateUser`. -/
def service : ClassObj := ⟨6, [("handle", handle), ("create", create)], []⟩

def registry : MessageRegistry := .new 0 (some 4) none

/-- `create` is called `on_create` instead. -/
def onCreate (name : String) : String := if name = "create" then "on_create" else name

private theorem create_covers (name : String) (h : isPrivate name = false) :
    MethodCovers commands 4 (name, create) 5 := by
  refine ⟨h, ⟨"self", .empty⟩, _, rfl, ⟨"cmd", .cls 5⟩, [], rfl, ⟨5, List.mem_singleton_self 5, .refl⟩, ?_⟩
  intro d hd
  obtain rfl := List.mem_singleton.1 hd
  exact commands.issubclass_iff.1 (by decide)

private theorem dispatched_ids :
    (dispatched commands .listed registry service 5).map Func.id = some handle.id ∧
      (dispatched commands .listed registry (service.rename onCreate) 5).map Func.id = some create.id := by
  decide +kernel

/-- `create` is defined last, and `handle` is used for `CreateUser`; `on_create` in its place is used. -/
theorem handle_dispatched :
    (LastCovering commands 4 service.body 5 ("create", create) ∧
      dispatched commands .listed registry service 5 ≠ some create) ∧
    Renames service onCreate ∧
      dispatched commands .listed registry (service.rename onCreate) 5 ≠
        dispatched commands .listed registry service 5 := by
  obtain ⟨hservice, hrenamed⟩ := dispatched_ids
  refine ⟨⟨⟨[("handle", handle)], [], rfl, create_covers _ (by decide), by simp⟩, fun h => ?_⟩, ?_, fun h => ?_⟩
  · rw [h] at hservice
    revert hservice
    decide
  · constructor <;> decide
  · rw [h, hservice] at hrenamed
    revert hrenamed
    decide

/-- Under the name `on_create` the last method is the one used. -/
theorem onCreate_dispatched : dispatched commands .listed registry (service.rename onCreate) 5 = some create := by
  obtain ⟨metas, hmetas⟩ : ∃ metas, getMethodmetas commands .listed 4 (service.rename onCreate) = .ok metas :=
    ⟨_, rfl⟩
  have hlast : LastCovering commands 4 (service.rename onCreate).body 5 ("on_create", create) :=
    ⟨[("handle", handle)], [], rfl, create_covers _ (by decide), by simp⟩
  refine ((last_method_iff commands .listed registry (service.rename onCreate) 4 metas rfl hmetas (by decide)).1 5 _
    hlast).2 ⟨"on_create", by simp [ClassObj.rename, service, onCreate], create_covers _ (by decide), ?_⟩
  have hle : ∀ n ∈ (service.rename onCreate).body, n.1 ≤ "on_create" := by
    intro n hn
    simp only [ClassObj.rename, service, onCreate, List.map_cons, List.map_nil, List.mem_cons, List.not_mem_nil,
      or_false] at hn
    rcases hn with rfl | rfl <;> decide
  exact fun n hn _ => hle n hn

end UserService

end Anywise
