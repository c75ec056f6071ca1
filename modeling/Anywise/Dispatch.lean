import Anywise.Registry

/-!
# `_resolve_meta`: from a meta to a callable

A handler is wrapped three times: a synchronous one becomes `partial(to_thread, handler)`, a method is bound to its
instance and a function becomes an entry of the dependency graph, and a handler without a context parameter gets an
adapter.  The entry looks at the signature of what it is given, and `partial(to_thread, handler)` has none left: the
dependencies of a synchronous function are not injected (`dispatch_sync_iff`).
-/

namespace Anywise

/-! ### Callables -/

/-- The arguments of a call. -/
structure Args (V : Type) where
  pos : List V
  kw : List (String × V)

/-- What comes of a call: the arguments the body was called with, if it was called, and what is returned or raised. -/
structure Outcome (V R : Type) where
  passed : Option (Args V)
  result : Except PyErr R

/-- A callable.  `signature` lists the parameters `inspect.signature` shows, without `*args` and `**kwargs`. -/
structure Callable (V R : Type) where
  signature : List Param
  call : Args V → Outcome V R

/-- What user code and the dependency graph do: the bodies of the handlers, how they bind their arguments included,
the instances `scope.resolve` makes, the dependencies an entry resolves, and the parameters it leaves out for a given
`ignore`. -/
structure Env (V R : Type) where
  body : FuncId → Args V → Except PyErr R
  instanceOf : Cls → Except PyErr V
  resolve : Param → Except PyErr V
  ignored : List Ignored → Param → Bool

section Resolve

variable {V R : Type}

/-- A handler as it is defined. -/
def Env.handler (env : Env V R) (f : Func) : Callable V R where
  signature := f.params
  call args := ⟨some args, env.body f.id args⟩

/-- `partial(to_thread, handler)`, with the signature `(*args, **kwargs)`. -/
def partialToThread (handler : Callable V R) : Callable V R where
  signature := []
  call := handler.call

/-- `MethodType(handler, instance)` -/
def methodType (handler : Callable V R) (inst : V) : Callable V R where
  signature := handler.signature.tail
  call args := handler.call ⟨inst :: args.pos, args.kw⟩

/-- The parameters of the signature that are neither supplied nor ignored. -/
def Env.injected (env : Env V R) (ignore : List Ignored) (signature : List Param) (args : Args V) : List Param :=
  (signature.drop args.pos.length).filter fun p => !(args.kw.map Prod.fst).contains p.name && !env.ignored ignore p

/-- The keyword arguments for the parameters. -/
def Env.resolveAll (env : Env V R) : List Param → Except PyErr (List (String × V))
  | [] => .ok []
  | p :: ps =>
    match env.resolve p with
    | .error e => .error e
    | .ok v => (env.resolveAll ps).map fun deps => (p.name, v) :: deps

/-- `self._dg.entry(ignore=ignore)(handler)` -/
def Env.entry (env : Env V R) (ignore : List Ignored) (handler : Callable V R) : Callable V R where
  signature := handler.signature
  call args :=
    match env.resolveAll (env.injected ignore handler.signature args) with
    | .error e => ⟨none, .error e⟩
    | .ok deps => handler.call ⟨args.pos, args.kw ++ deps⟩

/-- `context_wrapper(origin)` -/
def contextWrapper (origin : Callable V R) : Callable V R where
  signature := [⟨"message", .empty⟩, ⟨"_", .empty⟩]
  call args :=
    match args with
    | ⟨[message, _], []⟩ => origin.call ⟨[message], []⟩
    | _ => ⟨none, .error .typeError⟩

/-- `_resolve_meta(meta, scope=scope)` -/
def Env.resolveMeta (env : Env V R) (m : FuncMeta) : Except PyErr (Callable V R) :=
  let handler := env.handler m.handler
  let handler := if m.isAsync then handler else partialToThread handler
  let handler :=
    match m.ownerType with
    | some c => (env.instanceOf c).map fun inst => methodType handler inst
    | none => .ok (env.entry m.ignore handler)
  handler.map fun handler => if m.isContexted then handler else contextWrapper handler

/-- The callable made for a meta, applied to a message and a context. -/
def Env.dispatch (env : Env V R) (m : FuncMeta) (message context : V) : Except PyErr (Outcome V R) :=
  (env.resolveMeta m).map fun handler => handler.call ⟨[message, context], []⟩

end Resolve

/-! ### The synchronous and the asynchronous version of a handler -/

/-- The handler defined with `async def` or with `def`. -/
def Func.withAsync (f : Func) (isAsync : Bool) : Func := { f with isCoroutine := isAsync }

/-- The meta of that version. -/
def FuncMeta.withAsync (m : FuncMeta) (isAsync : Bool) : FuncMeta :=
  { m with isAsync := isAsync, handler := m.handler.withAsync isAsync }

section Versions

variable {g : ClassGraph} {ord : SetOrder} {base owner : Cls}

theorem metasOf_withAsync (derived : List Cls) (f : Func) (rest : List Param) (owner : Option Cls) (isAsync : Bool) :
    metasOf derived (f.withAsync isAsync) rest owner = (metasOf derived f rest owner).map (·.withAsync isAsync) := by
  unfold metasOf
  rw [List.map_map]
  rfl

/-- The metas of the two versions of a function differ in nothing else. -/
theorem getFuncmetas_withAsync (f : Func) (isAsync : Bool) :
    getFuncmetas g ord base (f.withAsync isAsync) =
      (getFuncmetas g ord base f).map fun metas => metas.map (·.withAsync isAsync) := by
  unfold getFuncmetas
  rw [show (f.withAsync isAsync).params = f.params from rfl]
  cases f.params with
  | nil => rfl
  | cons msg rest =>
    simp only
    cases gatherTypes g msg.annotation with
    | error e => rfl
    | ok types =>
      simp only
      cases (ord.iter types).find? fun t => !g.issubclass t base with
      | some t => rfl
      | none => exact congrArg Except.ok (metasOf_withAsync _ f rest none isAsync)

/-- Nor do those of a method. -/
theorem methodMetas_withAsync (name : String) (f : Func) (isAsync : Bool) :
    methodMetas g ord base owner (name, f.withAsync isAsync) =
      (methodMetas g ord base owner (name, f)).map fun metas => metas.map (·.withAsync isAsync) := by
  unfold methodMetas
  by_cases hpriv : isPrivate name = true
  · simp only [hpriv, if_true]
    rfl
  · simp only [hpriv]
    rw [show (f.withAsync isAsync).params = f.params from rfl]
    rcases f.params with _ | ⟨self, _ | ⟨msg, rest⟩⟩
    · rfl
    · rfl
    · simp only
      cases gatherTypes g msg.annotation with
      | error e => rfl
      | ok types =>
        simp only
        by_cases hall : ((ord.iter types).all fun t => g.issubclass t base) = true
        · simp only [hall, if_true]
          exact congrArg Except.ok (metasOf_withAsync _ f rest (some owner) isAsync)
        · simp only [hall]
          rfl

end Versions

/-! ### What the body is called with -/

section Dispatch

variable {V R : Type} {env : Env V R} {m : FuncMeta}

/-- The parameters of a handler behind the message and the context that are not ignored. -/
def Env.dependencies (env : Env V R) (m : FuncMeta) : List Param :=
  (m.handler.params.drop (if m.isContexted then 2 else 1)).filter fun p => !env.ignored m.ignore p

/-- What a handler gets of the message and the context. -/
def FuncMeta.given (m : FuncMeta) (message context : V) : List V :=
  if m.isContexted then [message, context] else [message]

theorem entry_call (ignore : List Ignored) (handler : Callable V R) (args : Args V) :
    (env.entry ignore handler).call args =
      match env.resolveAll (env.injected ignore handler.signature args) with
      | .error e => ⟨none, .error e⟩
      | .ok deps => handler.call ⟨args.pos, args.kw ++ deps⟩ := rfl

/-- An entry that injects nothing passes on what it is given. -/
theorem entry_injects_none {ignore : List Ignored} {handler : Callable V R} {args : Args V}
    (h : env.injected ignore handler.signature args = []) :
    (env.entry ignore handler).call args = handler.call args := by
  rw [entry_call, h]
  show handler.call ⟨args.pos, args.kw ++ []⟩ = _
  rw [List.append_nil]

/-- The entry of a synchronous handler is one. -/
theorem entry_partialToThread (ignore : List Ignored) (handler : Callable V R) (args : Args V) :
    (env.entry ignore (partialToThread handler)).call args = handler.call args := by
  have hnone : env.injected ignore (partialToThread handler).signature args = [] := by
    simp [Env.injected, partialToThread]
  exact entry_injects_none hnone

/-- One dependency for each parameter. -/
private theorem length_resolveAll {ps : List Param} {deps : List (String × V)} (h : env.resolveAll ps = .ok deps) :
    deps.length = ps.length := by
  induction ps generalizing deps with
  | nil =>
    cases h
    rfl
  | cons p ps ih =>
    unfold Env.resolveAll at h
    split at h
    · cases h
    · cases hps : env.resolveAll ps with
      | error e =>
        rw [hps] at h
        cases h
      | ok rest =>
        rw [hps] at h
        cases h
        rw [List.length_cons, List.length_cons, ih hps]

/-- The entry of a handler passes on what it is given exactly when it injects nothing. -/
theorem entry_handler_iff (ignore : List Ignored) (f : Func) (args : Args V) :
    (env.entry ignore (env.handler f)).call args = (env.handler f).call args ↔
      env.injected ignore f.params args = [] := by
  constructor
  · intro h
    rw [entry_call] at h
    cases hdeps : env.resolveAll (env.injected ignore (env.handler f).signature args) with
    | error e =>
      -- the body is not called at all
      rw [hdeps] at h
      have hpassed := congrArg Outcome.passed h
      cases hpassed
    | ok deps =>
      rw [hdeps] at h
      have hpassed : some (⟨args.pos, args.kw ++ deps⟩ : Args V) = some args := congrArg Outcome.passed h
      have hkw : args.kw ++ deps = args.kw := congrArg Args.kw (Option.some.inj hpassed)
      have hnil : deps = [] := by simpa using hkw
      have hlen := length_resolveAll hdeps
      rw [hnil, List.length_nil] at hlen
      exact List.length_eq_zero_iff.1 hlen.symm
  · intro h
    exact entry_injects_none h

/-- What a function without owner is called with. -/
theorem dispatch_function (hm : m.ownerType = none) (message context : V) :
    env.dispatch m message context = .ok ((env.entry m.ignore
      (if m.isAsync then env.handler m.handler else partialToThread (env.handler m.handler))).call
        ⟨m.given message context, []⟩) := by
  unfold Env.dispatch Env.resolveMeta FuncMeta.given
  rw [hm]
  cases m.isContexted <;> rfl

/-- A method is called with its instance in both versions. -/
theorem dispatch_method {c : Cls} (hm : m.ownerType = some c) (message context : V) :
    env.dispatch m message context = (env.instanceOf c).map fun inst =>
      (env.handler m.handler).call ⟨inst :: m.given message context, []⟩ := by
  simp only [Env.dispatch, Env.resolveMeta, FuncMeta.given, hm]
  cases env.instanceOf c with
  | error e => rfl
  | ok inst => cases m.isAsync <;> cases m.isContexted <;> rfl

private theorem injected_given (m : FuncMeta) (message context : V) :
    env.injected m.ignore m.handler.params ⟨m.given message context, []⟩ = env.dependencies m := by
  unfold Env.injected Env.dependencies FuncMeta.given
  cases m.isContexted <;> simp

/-- For every handler, message and context: the body of the synchronous version is called with the same arguments as
that of the asynchronous one, with the same outcome, exactly when the handler is a method or has no dependencies to
inject. -/
theorem dispatch_sync_iff (env : Env V R) (m : FuncMeta) (message context : V) :
    env.dispatch (m.withAsync false) message context = env.dispatch (m.withAsync true) message context ↔
      m.ownerType.isSome = true ∨ env.dependencies m = [] := by
  cases hm : m.ownerType with
  | some c =>
    have hsync : (m.withAsync false).ownerType = some c := hm
    have hasync : (m.withAsync true).ownerType = some c := hm
    rw [dispatch_method hsync, dispatch_method hasync]
    simp only [Option.isSome_some, true_or, iff_true]
    rfl
  | none =>
    have hsync : (m.withAsync false).ownerType = none := hm
    have hasync : (m.withAsync true).ownerType = none := hm
    have hsyncCall : env.dispatch (m.withAsync false) message context =
        .ok ((env.handler m.handler).call ⟨m.given message context, []⟩) := by
      rw [dispatch_function hsync]
      exact congrArg Except.ok (entry_partialToThread _ _ _)
    have hasyncCall : env.dispatch (m.withAsync true) message context =
        .ok ((env.entry m.ignore (env.handler m.handler)).call ⟨m.given message context, []⟩) :=
      dispatch_function hasync message context
    rw [hsyncCall, hasyncCall, Except.ok.injEq, eq_comm, entry_handler_iff, injected_given]
    simp

end Dispatch

/-! ### A function with a dependency -/

namespace UserDatabase

/-- The message class is number 5, the database number 7. -/
def create_user (isAsync : Bool) : Func := ⟨1, [⟨"command", .cls 5⟩, ⟨"db", .cls 7⟩], isAsync⟩

/-- Bodies that count their arguments, and a database to inject. -/
def env : Env Nat Nat where
  body _ args := .ok (args.pos.length + args.kw.length)
  instanceOf _ := .ok 0
  resolve _ := .ok 70
  ignored ignore p :=
    match p.annotation with
    | .cls c => ignore.any fun i => match i with | .cls d => c == d | _ => false
    | _ => false

def createMeta (isAsync : Bool) : FuncMeta := ⟨5, create_user isAsync, isAsync, false, [.cls 5], none⟩

/-- Written with `async def` the function gets the database, written with `def` it does not. -/
theorem dependency_not_injected :
    env.dispatch (createMeta true) 50 90 = .ok ⟨some ⟨[50], [("db", 70)]⟩, .ok 2⟩ ∧
      env.dispatch (createMeta false) 50 90 = .ok ⟨some ⟨[50], []⟩, .ok 1⟩ := ⟨rfl, rfl⟩

end UserDatabase

end Anywise
