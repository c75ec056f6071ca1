import Anywise.Manager
import Mathlib.Logic.Function.Basic

/-!
# Runs of definitions, registrations and includes

A `World` holds the classes of the process, its registries and the managers of one `Anywise`; the actions on it are
class definitions, registrations, includes, and the reading of a guard list by a send.
-/

namespace Anywise

/-! ### The world -/

structure World where
  graph : ClassGraph
  registries : Nat → MessageRegistry
  managers : Managers

inductive WorldAct
  /-- a `class` statement -/
  | define (bases : List Cls)
  /-- `registry(handler)` -/
  | register (r : Nat) (ord : SetOrder) (handler : Target)
  | preHandle (r : Nat) (ord : SetOrder) (func : Target)
  | postHandle (r : Nat) (ord : SetOrder) (func : Target)
  /-- `registry.add_guards(guard)` -/
  | addGuard (r : Nat) (ord : SetOrder) (guard : MessageRegistry.GuardArg)
  /-- `anywise.include(registry)` -/
  | incl (r : Nat)
  /-- a send reads the guard list of the type of its command -/
  | readGuards (msgType : Cls)

namespace World

/-- Registries with the given command and event bases, and an `Anywise`, all empty. -/
def new (bases : Nat → Option Cls × Option Cls) : World where
  graph := .builtin
  registries r := .new r (bases r).1 (bases r).2
  managers := .new

def setRegistry (w : World) (r : Nat) (reg : MessageRegistry) : World :=
  { w with registries := Function.update w.registries r reg }

/-- The world after an action, and the exception it raised.  An include that ididi refuses, as it
does with a graph to merge after a scope was started in the same task, changes nothing and is left out. -/
def exec (w : World) : WorldAct → World × Except PyErr Unit
  | .define bs =>
    if w.graph.Definable bs then ({ w with graph := w.graph.define bs }, .ok ()) else (w, .error .typeError)
  | .register r ord h =>
    let res := (w.registries r)._register w.graph ord h
    (w.setRegistry r res.1, res.2)
  | .preHandle r ord f =>
    let res := (w.registries r).attempt ((w.registries r).preHandle w.graph ord f)
    (w.setRegistry r res.1, res.2)
  | .postHandle r ord f =>
    let res := (w.registries r).attempt ((w.registries r).postHandle w.graph ord f)
    (w.setRegistry r res.1, res.2)
  | .addGuard r ord guard =>
    let res := (w.registries r).attempt ((w.registries r).addGuard w.graph ord guard)
    (w.setRegistry r res.1, res.2)
  | .incl r => ({ w with managers := w.managers.include [w.registries r] }, .ok ())
  | .readGuards T =>
    ({ w with managers := { w.managers with
        handlerManager := w.managers.handlerManager.readGuards T } }, .ok ())

def step (w : World) (a : WorldAct) : World := (w.exec a).1

def run (w : World) (acts : List WorldAct) : World := acts.foldl step w

/-- The guard list a send of a `T` reads. -/
def commandGuards (w : World) (T : Cls) : List GuardMeta := w.managers.handlerManager.commandGuards T

end World

end Anywise
