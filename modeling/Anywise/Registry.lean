import Anywise.Lib.Dict
import Anywise.Visitor
import Mathlib.Data.List.Sort

/-!
# `MessageRegistry`

What a registry does with the handlers and guards it is given.  A handler goes through two phases: it is registered
as a command handler if there is a command base, and as an event listener if there is an event base; the failure of
one phase is caught when the other one runs after it (`_register`).  A guard is appended to the list of every class
its command parameter stands for at that moment; `pre_handle` and `post_handle` make one `Guard` object for each.
-/

namespace Anywise

/-! ### Metas -/

/-- What `Graph.entry` must not inject: a message type or one of `IGNORE_TYPES`. -/
inductive Ignored
  | cls (c : Cls)
  | context
  | frozenContext

def IGNORE_TYPES : List Ignored := [.context, .frozenContext]

/-- `FuncMeta`, and `MethodMeta` when there is an owner. -/
structure FuncMeta where
  messageType : Cls
  handler : Func
  isAsync : Bool
  isContexted : Bool
  ignore : List Ignored
  ownerType : Option Cls

/-- `IGuard | type[IGuard]` -/
inductive GuardRef
  | obj (g : GuardObj)
  | cls (c : Cls)
  deriving DecidableEq

structure GuardMeta where
  guardTarget : Cls
  guard : GuardRef
  deriving DecidableEq

/-- The `__metadata__` of the `__value__` of an annotation. -/
def Annotation.valueMetadata : Annotation → Option (List String)
  | .generic _ v => v
  | .other v => v
  | _ => none

/-- `is_contextparam(param)` -/
def isContextparam : List Param → Bool
  | [] => false
  | p :: _ =>
    match p.annotation.valueMetadata with
    | none => false
    | some metas => metas.contains CTX_MARKER

/-- One meta for each type in `derived`. -/
def metasOf (derived : List Cls) (func : Func) (rest : List Param) (owner : Option Cls) : List FuncMeta :=
  derived.map fun t =>
    { messageType := t
      handler := func
      isAsync := func.isCoroutine
      isContexted := isContextparam rest
      ignore := derived.map Ignored.cls ++ IGNORE_TYPES
      ownerType := owner }

/-- `get_funcmetas(msg_base, func)` -/
def getFuncmetas (g : ClassGraph) (ord : SetOrder) (msgBase : Cls) (func : Func) : Except PyErr (List FuncMeta) :=
  match func.params with
  | [] => .error (.messageHandlerNotFound (some msgBase) func.id)
  | msg :: rest =>
    match gatherTypes g msg.annotation with
    | .error e => .error e
    | .ok types =>
      match (ord.iter types).find? fun t => !g.issubclass t msgBase with
      | some t => .error (.invalidHandler msgBase t func.id)
      | none => .ok (metasOf (ord.iter types) func rest none)

/-- `inspect.getmembers(cls, predicate=inspect.isfunction)`: sorted by name. -/
def ClassObj.getmembers (c : ClassObj) : List (String × Func) := c.body.insertionSort fun a b => a.1 ≤ b.1

/-- `name.startswith("_")` -/
def isPrivate (name : String) : Bool := name.toList.head? == some '_'

/-- The body of the loop in `get_methodmetas`: the metas of one member. -/
def methodMetas (g : ClassGraph) (ord : SetOrder) (msgBase owner : Cls) (m : String × Func) :
    Except PyErr (List FuncMeta) :=
  if isPrivate m.1 then .ok []
  else
    match m.2.params with
    | [_] => .ok []
    -- `_, msg, *rest = params` on an empty list
    | [] => .error .valueError
    | _ :: msg :: rest =>
      match gatherTypes g msg.annotation with
      | .error e => .error e
      | .ok types =>
        if (ord.iter types).all fun t => g.issubclass t msgBase then
          .ok (metasOf (ord.iter types) m.2 rest (some owner))
        else .ok []

/-- The loop over the members. -/
def methodMetasLoop (g : ClassGraph) (ord : SetOrder) (msgBase owner : Cls) :
    List (String × Func) → Except PyErr (List FuncMeta)
  | [] => .ok []
  | m :: ms =>
    match methodMetas g ord msgBase owner m with
    | .error e => .error e
    | .ok metas =>
      match methodMetasLoop g ord msgBase owner ms with
      | .error e => .error e
      | .ok rest => .ok (metas ++ rest)

/-- `get_methodmetas(msg_base, cls)` -/
def getMethodmetas (g : ClassGraph) (ord : SetOrder) (msgBase : Cls) (c : ClassObj) :
    Except PyErr (List FuncMeta) :=
  match methodMetasLoop g ord msgBase c.cls c.getmembers with
  | .error e => .error e
  | .ok [] => .error (.messageHandlerNotFound (some msgBase) c.cls)
  | .ok metas => .ok metas

/-- What both phases extract from a handler. -/
def extractMetas (g : ClassGraph) (ord : SetOrder) (msgBase : Cls) : Target → Except PyErr (List FuncMeta)
  | .func f => getFuncmetas g ord msgBase f
  | .cls c => getMethodmetas g ord msgBase c
  | .other i => .error (.notSupportedHandlerType i)

/-! ### The registry -/

/-- A registry.  `id` is its identity and `guardsMade` counts its calls of `pre_handle` and `post_handle`: together
they name the `Guard` objects it makes. -/
structure MessageRegistry where
  id : Nat
  commandBase : Option Cls
  eventBase : Option Cls
  commandMapping : Dict Cls FuncMeta
  eventMapping : Dict Cls (List FuncMeta)
  guardMapping : Dict Cls (List GuardMeta)
  guardsMade : Nat

namespace MessageRegistry

/-- `MessageRegistry(command_base=…, event_base=…)` -/
def new (id : Nat) (commandBase eventBase : Option Cls) : MessageRegistry :=
  ⟨id, commandBase, eventBase, .empty, .empty, .empty, 0⟩

section Handlers

variable (g : ClassGraph) (ord : SetOrder)

/-- `_register_commandhanlders` -/
def registerCommandhanlders (r : MessageRegistry) (handler : Target) : Except PyErr MessageRegistry :=
  match r.commandBase with
  | none => .ok r
  | some base =>
    match extractMetas g ord base handler with
    | .error e => .error e
    | .ok metas =>
      -- of several metas for one type the last one stays
      let mapping : Dict Cls FuncMeta := Dict.empty.update (metas.map fun m => (m.messageType, m))
      .ok { r with commandMapping := r.commandMapping.update mapping.items }

/-- `_register_eventlisteners` -/
def registerEventlisteners (r : MessageRegistry) (listener : Target) : Except PyErr MessageRegistry :=
  match r.eventBase with
  | none => .ok r
  | some base =>
    match extractMetas g ord base listener with
    | .error e => .error e
    | .ok metas =>
      .ok { r with eventMapping := metas.foldl (fun d m => d.extend m.messageType [m]) r.eventMapping }

/-- `_register`: the registry afterwards, also when an exception is raised. -/
def _register (r : MessageRegistry) (handler : Target) : MessageRegistry × Except PyErr Unit :=
  match r.registerCommandhanlders g ord handler with
  | .error e =>
    -- `except HandlerRegisterFailError`: the event phase runs, and its exceptions are not caught
    if e.isHandlerRegisterFail then
      match r.registerEventlisteners g ord handler with
      | .error e => (r, .error e)
      | .ok r => (r, .ok ())
    else (r, .error e)
  | .ok r =>
    match r.registerEventlisteners g ord handler with
    -- `except HandlerRegisterFailError: pass`
    | .error e => if e.isHandlerRegisterFail then (r, .ok ()) else (r, .error e)
    | .ok r => (r, .ok ())

end Handlers

section Guards

variable (g : ClassGraph) (ord : SetOrder)

/-- `get_guardtarget(func)` -/
def getGuardtarget (r : MessageRegistry) (func : Target) : Except PyErr (List Cls) :=
  let funcParams : Except PyErr (List Param) :=
    match func with
    -- the parameters of `__call__` without `self`
    | .cls c => .ok (c.call.drop 1)
    | .func f => .ok f.params
    | .other i => .error (.messageHandlerNotFound r.commandBase i)
  match funcParams with
  | .error e => .error e
  | .ok [] => .error (.messageHandlerNotFound r.commandBase func.id)
  | .ok (p :: _) => gatherTypes g p.annotation

/-- One `GuardMeta` at the end of the list of each target. -/
def appendGuards (d : Dict Cls (List GuardMeta)) (targets : List Cls) (guard : Cls → GuardRef) :
    Dict Cls (List GuardMeta) :=
  targets.foldl (fun d t => d.extend t [⟨t, guard t⟩]) d

/-- `pre_handle(func)` -/
def preHandle (r : MessageRegistry) (func : Target) : Except PyErr MessageRegistry :=
  match r.getGuardtarget g func with
  | .error e => .error e
  | .ok targets =>
    .ok { r with
      guardMapping := appendGuards r.guardMapping (ord.iter targets) fun t =>
        .obj (.guard r.id r.guardsMade t (some func.id) none)
      guardsMade := r.guardsMade + 1 }

/-- `post_handle(func)` -/
def postHandle (r : MessageRegistry) (func : Target) : Except PyErr MessageRegistry :=
  match r.getGuardtarget g func with
  | .error e => .error e
  | .ok targets =>
    .ok { r with
      guardMapping := appendGuards r.guardMapping (ord.iter targets) fun t =>
        .obj (.guard r.id r.guardsMade t none (some func.id))
      guardsMade := r.guardsMade + 1 }

/-- The argument of `add_guards`: a guard class, or an instance of one, as it is typed.  A function, which it would take
as well, is given to `pre_handle` or `post_handle`. -/
inductive GuardArg
  | cls (c : ClassObj)
  | inst (id : Nat) (cls : Cls)

def GuardArg.target : GuardArg → Target
  | .cls c => .cls c
  | .inst i _ => .other i

def GuardArg.ref : GuardArg → GuardRef
  | .cls c => .cls c.cls
  | .inst i c => .obj (.custom i c)

/-- The body of the loop in `add_guards`. -/
def addGuard (r : MessageRegistry) (guard : GuardArg) : Except PyErr MessageRegistry :=
  match r.getGuardtarget g guard.target with
  | .error e => .error e
  | .ok targets =>
    .ok { r with guardMapping := appendGuards r.guardMapping (ord.iter targets) fun _ => guard.ref }

/-- A loop whose body may raise: the registry when it ends. -/
def forEach {α : Type} (body : MessageRegistry → α → MessageRegistry × Except PyErr Unit) (r : MessageRegistry) :
    List α → MessageRegistry × Except PyErr Unit
  | [] => (r, .ok ())
  | a :: as =>
    match body r a with
    | (r, .error e) => (r, .error e)
    | (r, .ok ()) => forEach body r as

/-- A call that leaves the registry as it was when it raises. -/
def attempt (r : MessageRegistry) : Except PyErr MessageRegistry → MessageRegistry × Except PyErr Unit
  | .error e => (r, .error e)
  | .ok r' => (r', .ok ())

/-- `add_guards(*guards)` -/
def addGuards (r : MessageRegistry) (guards : List GuardArg) : MessageRegistry × Except PyErr Unit :=
  r.forEach (fun r guard => r.attempt (r.addGuard g ord guard)) guards

/-- `register(*handlers, pre_hanldes=…, post_handles=…)` -/
def register (r : MessageRegistry) (handlers preHanldes postHandles : List Target) :
    MessageRegistry × Except PyErr Unit :=
  let registerOne (r : MessageRegistry) (handler : Target) : MessageRegistry × Except PyErr Unit :=
    match handler with
    | .cls c => if g.issubclass c.cls Cls.baseGuard then r.addGuards g ord [.cls c] else r._register g ord handler
    | _ => r._register g ord handler
  match r.forEach registerOne handlers with
  | (r, .error e) => (r, .error e)
  | (r, .ok ()) =>
    match r.forEach (fun r f => r.attempt (r.preHandle g ord f)) preHanldes with
    | (r, .error e) => (r, .error e)
    | (r, .ok ()) => r.forEach (fun r f => r.attempt (r.postHandle g ord f)) postHandles

end Guards

end MessageRegistry

end Anywise
