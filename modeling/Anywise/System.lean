import Anywise.Lib.Chain
import Anywise.Lib.Run
import Anywise.Journal

/-!
# Sends and publishes in progress

A `System` is a `World` together with the `_next_guard` links of all guard objects, the calls of `Anywise.send` and
`Anywise.publish` made so far, and the scopes that are open.  A call advances by one action at a time: the piece of
the library that runs until it hands over to user code (a guard function, a class-based guard, a handler, the
resolution of a dependency), which may suspend, or the piece of user code that hands control back.  Calls advance in
any order.  Where the library calls itself without anything in between, as a guard without `pre_handle` calls the
next one, other calls may advance as well; so a system has at least the interleavings of the event loop.

A nested call, made by a handler or a guard, is a call like any other.  A class-based guard calls
`super().__call__` at most once, with the arguments it was given; it may answer by itself, raise, change the
response and handle an exception.  This restricts user code: `BaseGuard` leaves `__call__` to it, and a guard that
calls the next one again, or with other arguments, is not in the model.

Whether a class-based guard object is true is up to its class, which may define `__bool__` or `__len__`; a guard that
finds its next guard false raises `DunglingGuardError`.
-/

namespace Anywise

/-! ### Calls -/

/-- A message, with its class. -/
structure Msg where
  id : Nat
  type : Cls
  deriving DecidableEq

/-- A context object: the caller's, or the empty mapping made for a call. -/
inductive Ctx
  | given (n : Nat)
  | fresh (call : Nat)
  deriving DecidableEq

/-- A scope: the caller's, or the one entered for a call. -/
inductive ScopeId
  | given (n : Nat)
  | own (call : Nat)
  deriving DecidableEq

/-- What handlers and guards return: `None` or another object. -/
abbrev Value := Option Nat

/-- The callable `_resolve_meta(meta, scope=scope)` makes for a call. -/
structure Resolved where
  funcMeta : FuncMeta
  call : Nat
  scope : ScopeId

/-- A guard that is being called, with its arguments. -/
structure Frame where
  guard : GuardObj
  command : Msg
  context : Ctx
  deriving DecidableEq

/-- A call of user code. -/
inductive Event
  | pre (guard : GuardObj) (func : FuncId) (command : Msg) (context : Ctx)
  | custom (guard : GuardObj) (command : Msg) (context : Ctx)
  | handle (handler : Resolved) (message : Msg) (context : Option Ctx)
  | post (guard : GuardObj) (func : FuncId) (command : Msg) (context : Ctx) (response : Value)

/-- The handler called, with the message. -/
def Event.delivery : Event → Option (Resolved × Msg)
  | .handle h m _ => some (h, m)
  | _ => none

/-- Where a call stands; the guards around the present one are `outer`, the innermost first. -/
inductive Phase
  /-- the scope is there -/
  | entered
  /-- in `_resolve_meta` for the handler -/
  | resolving (m : FuncMeta)
  /-- before `_chain_guards` -/
  | resolved (h : Resolved)
  /-- in `_chain_guards`, resolving the guard classes among `metas` -/
  | chaining (h : Resolved) (metas : List GuardMeta)
  /-- the guard has been called and has not called the next one -/
  | before (f : Frame) (outer : List Frame)
  | handling (h : Resolved) (outer : List Frame)
  /-- the guard got a response from the next one -/
  | after (f : Frame) (outer : List Frame) (response : Value)
  /-- the class-based guard got an exception from the next one -/
  | failed (f : Frame) (outer : List Frame) (e : PyErr)
  /-- in `resolve_listeners`, these being resolved -/
  | listening (listeners : List Resolved)
  /-- in `default_publish`, a listener running and `rest` to be called -/
  | publishing (rest : List Resolved)
  | done (result : Except PyErr Value)

inductive Method
  | send
  | publish
  deriving DecidableEq

/-- A call of `send` or `publish`.  From `handler` on the fields record what it has done: the handler it resolved,
the guard list it read, the guard objects it linked, the guards it called and all calls of user code. -/
structure Call where
  method : Method
  msg : Msg
  contextArg : Option Nat
  scope : ScopeId
  phase : Phase
  handler : Option Resolved
  listed : List GuardMeta
  guards : List GuardObj
  entered : List GuardObj
  log : List Event

inductive CallAct
  /-- the meta, or the metas, of the type of the message -/
  | lookup
  /-- `_resolve_meta` returns -/
  | resolveMeta
  /-- `_chain_guards` reads the guard list -/
  | readGuards
  /-- `_chain_guards` has resolved the guards to `objs`, links them and returns; the head is called -/
  | chain (objs : List GuardObj)
  /-- the guard calls the next one, which is true if it is set; `default_publish` calls the first listener -/
  | callNext
  /-- the guard finds the next one false -/
  | nextFalse
  /-- user code returns -/
  | answer (v : Value)
  /-- user code raises -/
  | raise (e : PyErr)

abbrev Links := Chain.Links GuardObj Resolved

/-! ### One call -/

/-- What `scope.resolve` makes of a guard. -/
def GuardRef.ResolvesTo : GuardRef → GuardObj → Prop
  | .obj g, o => o = g
  | .cls c, .custom _ d => d = c
  | .cls _, .guard .. => False

instance (r : GuardRef) (o : GuardObj) : Decidable (r.ResolvesTo o) :=
  match r, o with
  | .obj g, o => inferInstanceAs (Decidable (o = g))
  | .cls c, .custom _ d => inferInstanceAs (Decidable (d = c))
  | .cls _, .guard .. => .isFalse id

/-- `objs` are guard objects for the metas of a guard list. -/
def ResolveTo (metas : List GuardMeta) (objs : List GuardObj) : Prop :=
  List.Forall₂ (fun (m : GuardMeta) o => m.guard.ResolvesTo o) metas objs

instance (metas : List GuardMeta) (objs : List GuardObj) : Decidable (ResolveTo metas objs) :=
  inferInstanceAs (Decidable (List.Forall₂ _ _ _))

def GuardRef.isClass : GuardRef → Bool
  | .obj _ => false
  | .cls _ => true

namespace GuardObj

/-- The guard calls user code before the next guard. -/
def hasPre : GuardObj → Bool
  | .guard _ _ _ pre _ => pre.isSome
  | .custom _ _ => true

def isCustom : GuardObj → Bool
  | .guard .. => false
  | .custom _ _ => true

/-- The user code called first. -/
def preEvents (g : GuardObj) (command : Msg) (context : Ctx) : List Event :=
  match g with
  | .guard _ _ _ (some f) _ => [.pre g f command context]
  | .guard _ _ _ none _ => []
  | .custom _ _ => [.custom g command context]

end GuardObj

/-- The call of a handler: `context_wrapper` drops the context where it is not declared. -/
def Resolved.event (h : Resolved) (message : Msg) (context : Ctx) : Event :=
  .handle h message (if h.funcMeta.isContexted then some context else none)

namespace Call

/-- The context of call number `c`. -/
def context (k : Call) (c : Nat) : Ctx :=
  match k.contextArg with
  | some n => .given n
  | none => .fresh c

/-- The calls of handlers. -/
def deliveries (k : Call) : List (Resolved × Msg) := k.log.filterMap Event.delivery

/-- `await next(command, context)` -/
def enterNext (k : Call) (next : GuardObj ⊕ Resolved) (command : Msg) (context : Ctx) (outer : List Frame) : Call :=
  match next with
  | .inl g =>
    { k with
      phase := .before ⟨g, command, context⟩ outer
      entered := k.entered ++ [g]
      log := k.log ++ g.preEvents command context }
  | .inr h =>
    { k with
      phase := .handling h outer
      log := k.log ++ [h.event command context] }

/-- The response `v` goes to the guards `outer`. -/
def returnTo (k : Call) : List Frame → Value → Call
  | [], v => { k with phase := .done (.ok v) }
  | f :: outer, v =>
    match f.guard with
    | .guard _ _ _ _ (some p) =>
      { k with
        phase := .after f outer v
        log := k.log ++ [.post f.guard p f.command f.context v] }
    | .guard _ _ _ _ none => k.returnTo outer v
    | .custom _ _ => { k with phase := .after f outer v }

/-- The exception `e` goes to the guards `outer`. -/
def raiseTo (k : Call) : List Frame → PyErr → Call
  | [], e => { k with phase := .done (.error e) }
  | f :: outer, e => if f.guard.isCustom then { k with phase := .failed f outer e } else k.raiseTo outer e

/-- `default_publish` calls the next listener. -/
def publishNext (k : Call) (c : Nat) : List Resolved → Call
  | [] => { k with phase := .done (.ok none) }
  | h :: rest =>
    { k with
      phase := .publishing rest
      log := k.log ++ [h.event k.msg (k.context c)] }

/-- The meta `resolve_listeners` comes to after those of `listeners`.  It iterates over the list of the manager, to
which an include may append meanwhile. -/
def nextListener (k : Call) (w : World) (listeners : List Resolved) : Option FuncMeta :=
  (w.managers.listenerManager.listenerMetas.getD k.msg.type)[listeners.length]?

/-- The key is missing in the map of the manager. -/
def unregistered (k : Call) : Call := { k with phase := .done (.error (.unregisteredMessage k.msg.type)) }

/-- An action of call number `c`: the world, the links and the call afterwards. -/
def step (w : World) (links : Links) (c : Nat) (k : Call) : CallAct → Option (World × Links × Call)
  | .lookup =>
    match k.phase, k.method with
    | .entered, .send =>
      match w.managers.handlerManager.handlerMetas.get? k.msg.type with
      | none => some (w, links, k.unregistered)
      | some m => some (w, links, { k with phase := .resolving m })
    | .entered, .publish =>
      match w.managers.listenerManager.listenerMetas.get? k.msg.type with
      | none => some (w, links, k.unregistered)
      | some _ => some (w, links, { k with phase := .listening [] })
    | _, _ => none
  | .resolveMeta =>
    match k.phase with
    | .resolving m =>
      some (w, links, { k with phase := .resolved ⟨m, c, k.scope⟩, handler := some ⟨m, c, k.scope⟩ })
    | .listening listeners =>
      match k.nextListener w listeners with
      | some m => some (w, links, { k with phase := .listening (listeners ++ [⟨m, c, k.scope⟩]) })
      | none => none
    | _ => none
  | .readGuards =>
    match k.phase with
    | .resolved h =>
      let metas := w.commandGuards k.msg.type
      -- the lookup in the `defaultdict` inserts the key
      let w := w.step (.readGuards k.msg.type)
      if metas = [] then some (w, links, k.enterNext (.inr h) k.msg (k.context c) [])
      else some (w, links, { k with phase := .chaining h metas, listed := metas })
    | _ => none
  | .chain objs =>
    match k.phase with
    | .chaining h metas =>
      if ResolveTo metas objs then
        match objs with
        | [] => none
        | head :: rest =>
          some (w, Chain.linkFrom links head rest h,
            { k with guards := objs }.enterNext (.inl head) k.msg (k.context c) [])
      else none
    | _ => none
  | .callNext =>
    match k.phase with
    | .before f outer =>
      -- `_next_guard` is read only now
      match links f.guard with
      | none => some (w, links, k.raiseTo (f :: outer) (.dunglingGuard f.guard))
      | some next => some (w, links, k.enterNext next f.command f.context (f :: outer))
    | .listening listeners =>
      match k.nextListener w listeners with
      | some _ => none
      | none => some (w, links, k.publishNext c listeners)
    | _ => none
  | .nextFalse =>
    match k.phase with
    | .before f outer =>
      match links f.guard with
      -- a `Guard` and a handler are true
      | some (.inl next) =>
        if next.isCustom then some (w, links, k.raiseTo (f :: outer) (.dunglingGuard f.guard)) else none
      | _ => none
    | _ => none
  | .answer v =>
    match k.phase with
    | .before f outer => if f.guard.isCustom then some (w, links, k.returnTo outer v) else none
    | .handling _ outer => some (w, links, k.returnTo outer v)
    | .after _ outer _ => some (w, links, k.returnTo outer v)
    | .failed _ outer _ => some (w, links, k.returnTo outer v)
    | .publishing rest => some (w, links, k.publishNext c rest)
    | _ => none
  | .raise e =>
    match k.phase with
    | .resolving _ => some (w, links, { k with phase := .done (.error e) })
    | .chaining _ metas =>
      -- only the resolution of a guard class is user code
      if metas.any fun m => m.guard.isClass then some (w, links, { k with phase := .done (.error e) }) else none
    | .before f outer => if f.guard.hasPre then some (w, links, k.raiseTo outer e) else none
    | .handling _ outer => some (w, links, k.raiseTo outer e)
    | .after _ outer _ => some (w, links, k.raiseTo outer e)
    | .failed _ outer _ => some (w, links, k.raiseTo outer e)
    | .listening listeners =>
      if (k.nextListener w listeners).isSome then some (w, links, { k with phase := .done (.error e) }) else none
    | .publishing _ => some (w, links, { k with phase := .done (.error e) })
    | _ => none

end Call

/-! ### The system -/

structure System where
  world : World
  links : Links
  calls : List Call
  scopes : List ScopeId

inductive SysAct
  | world (a : WorldAct)
  /-- `async with anywise.scope()` is entered and left by user code -/
  | openScope (n : Nat)
  | closeScope (n : Nat)
  /-- `anywise.send(msg, context=…, scope=…)` or `anywise.publish(…)` is called -/
  | start (method : Method) (msg : Msg) (context scope : Option Nat)
  | call (c : Nat) (a : CallAct)

namespace System

def new (bases : Nat → Option Cls × Option Cls) : System := ⟨.new bases, fun _ => none, [], []⟩

/-- Call number `c` as it begins. -/
def begin (c : Nat) (method : Method) (msg : Msg) (context scope : Option Nat) : Call where
  method := method
  msg := msg
  contextArg := context
  scope := match scope with
    | some n => .given n
    | none => .own c
  phase := .entered
  handler := none
  listed := []
  guards := []
  entered := []
  log := []

/-- There are instances of all classes but `typing.Any`. -/
def HasInstances (w : World) (T : Cls) : Prop := T ≠ Cls.any ∧ T < w.graph.size

instance (w : World) (T : Cls) : Decidable (HasInstances w T) := inferInstanceAs (Decidable (_ ∧ _))

def step (s : System) : SysAct → Option System
  | .world a => some { s with world := s.world.step a }
  | .openScope n => if .given n ∈ s.scopes then none else some { s with scopes := s.scopes ++ [.given n] }
  | .closeScope n => if .given n ∈ s.scopes then some { s with scopes := s.scopes.erase (.given n) } else none
  | .start method msg context scope =>
    if HasInstances s.world msg.type then
      some { s with
        calls := s.calls ++ [begin s.calls.length method msg context scope]
        -- `scope = await self._dg.scope("message").__aenter__()`, unless the caller gave one
        scopes := match scope with
          | some _ => s.scopes
          | none => s.scopes ++ [.own s.calls.length] }
    else none
  | .call c a =>
    match s.calls[c]? with
    | none => none
    | some k =>
      match k.step s.world s.links c a with
      | none => none
      | some (w, links, k') => some { s with world := w, links := links, calls := s.calls.set c k' }

/-- What an action adds to the journal. -/
def entries (s : System) : SysAct → List Entry
  | .world a => (s.world.entry a).toList
  | _ => []

/-- The journal of a run. -/
def journal (s : System) : List SysAct → List Entry
  | [] => []
  | a :: as => s.entries a ++
    match s.step a with
    | none => []
    | some s' => s'.journal as

end System

/-! ### A small application -/

namespace UserApp

/-- The command base, and the two commands derived from it. -/
def UserCommand : Cls := 4

def CreateUser : Cls := 5

def UpdateUser : Cls := 6

def bases (_ : Nat) : Option Cls × Option Cls := (some UserCommand, none)

/-- An async handler of the given command. -/
def handler (id : FuncId) (command : Cls) : Target := .func ⟨id, [⟨"cmd", .cls command⟩], true⟩

/-- A guard function for the given command. -/
def guardFunc (id : FuncId) (command : Cls) : Target :=
  .func ⟨id, [⟨"cmd", .cls command⟩, ⟨"context", .generic 0 (some [CTX_MARKER])⟩], true⟩

/-- The classes, and handlers 1 and 2 for the two commands in registry 0. -/
def setup : List SysAct :=
  [.world (.define [Cls.object]), .world (.define [UserCommand]), .world (.define [UserCommand]),
    .world (.register 0 .listed (handler 1 CreateUser)), .world (.register 0 .listed (handler 2 UpdateUser))]

/-- A send of `msg`, up to the call of its first guard, one of `guards`. -/
def sendUpTo (c : Nat) (msg : Msg) (guards : List GuardObj) : List SysAct :=
  [.start .send msg none none, .call c .lookup, .call c .resolveMeta, .call c .readGuards, .call c (.chain guards)]

end UserApp

end Anywise
