import Resumable.Host.Function
import Resumable.Number.Integer

/-!
# Scripted handlers

A script is a handler given as data: a list of steps that look at the context, await calls, call other
functions, fail, panic or return a value. Every step notes what it saw. An error ends the script with
it, in the context that its step names, unless the step catches it; only a call that cannot be built
ends the script at once. A script that runs out returns the unit value.
-/

namespace Resumable.Script

open Number

/-- A call of a script: built through the context, or given as it is. -/
inductive Outgoing where
  | built (function : String) (input : Forms)
  | given (call : Call)

/-- What a script notes, with unboxed values of type ν. -/
inductive Note (ν : Type) where
  | input (value : ν)
  | context (ctx : Context)
  | slots (slots : Slots)
  | value (value : ν)
  | values (values : List ν)
  | integers (values : List Int64)
  | failed (error : AwaitError)
  | caught (message : String)

/-- What a step does. -/
inductive Action (ν : Type) where
  /-- Notes the context. -/
  | context
  | await (strategy : Strategy) (calls : List Outgoing)
  | gather (target : Target ν) (calls : List Outgoing)
  /-- Calls one function with each input. -/
  | callEach (function : String) (target : Target ν) (inputs : List Forms)
  /-- Calls one function with each input and adds the integers it returns to the sum, which wraps. -/
  | sumEach (function : String) (target : Target Int64) (inputs : List Forms)
  | call (function : String) (target : Target ν) (input : Forms)
  | fail (error : HandlerError)
  | panic (payload : Panic)
  | done (value : Forms)
  /-- Returns the sum. -/
  | doneSum

/-- A step: what it does, the context of its error, and whether the error is caught. -/
structure Step (ν : Type) where
  action : Action ν
  context : Option String := none
  caught : Bool := false

/-- What an action comes to. -/
inductive Ending where
  | goOn (sum : Int64)
  | answered (value : Forms)
  /-- An error that ends the script at once. -/
  | aborted (error : HandlerError)
  | failed (error : HandlerError)

variable {ν : Type}

/-- The calls of a step, unless one cannot be built. -/
def build (ctx : Context) (calls : List Outgoing) : Except CodecError (List Call) :=
  calls.mapM fun
    | .built function input => ctx.call function input
    | .given call => .ok call

/-- Notes what an operation answered. -/
def conclude {α : Type} (sum : Int64) (note : α → Note ν) :
    Except AwaitError α → Process (Note ν) Ending
  | .ok a => do
    Process.tell (note a)
    return .goOn sum
  | .error e => do
    Process.tell (.failed e)
    return .failed (.ofFailure e.toFailure)

/-- Runs an action. -/
def Action.run (ctx : Context) (sum : Int64) : Action ν → Process (Note ν) Ending
  | .context => do
    Process.tell (.context ctx)
    return .goOn sum
  | .await strategy calls =>
    match build ctx calls with
    | .error e => return .aborted (.ofFailure e.toFailure)
    | .ok calls => do conclude sum .slots (← Process.awaitCalls strategy calls)
  | .gather target calls =>
    match build ctx calls with
    | .error e => return .aborted (.ofFailure e.toFailure)
    | .ok calls => do conclude sum .values (← Process.gather target calls)
  | .callEach function target inputs => do
    match ← (Callee.mk function id target).gather ctx inputs with
    | .ok values =>
      Process.tell (.values values)
      return .goOn sum
    | .error e => return .failed e
  | .sumEach function target inputs => do
    match ← (Callee.mk function id target).gather ctx inputs with
    | .ok values =>
      Process.tell (.integers values)
      return .goOn (values.foldl (· + ·) sum)
    | .error e => return .failed e
  | .call function target input => do
    match ← (Callee.mk function id target).await ctx input with
    | .ok value =>
      Process.tell (.value value)
      return .goOn sum
    | .error e => return .failed e
  | .fail e => return .failed e
  | .panic payload => .panic payload
  | .done value => return .answered value
  | .doneSum => return .answered { native := some (.int sum) }

/-- Runs steps with a sum to begin with. -/
def run (ctx : Context) : List (Step ν) → Int64 → Process (Note ν) (Except HandlerError Forms)
  | [], _ => return .ok { isNull := true }
  | step :: rest, sum => do
    match ← step.action.run ctx sum with
    | .goOn sum => run ctx rest sum
    | .answered value => return .ok value
    | .aborted e => return .error e
    | .failed e =>
      let e := step.context.elim e e.withContext
      if step.caught then do
        Process.tell (.caught e.message)
        run ctx rest sum
      else return .error e

/-- The function of a script, which notes its input first. -/
def function (name : String) (input : Target ν) (steps : List (Step ν)) : Function (Note ν) :=
  TypedFunction.toFunction {
    name, input
    output := id
    handler := fun ctx value => do
      Process.tell (.input value)
      run ctx steps 0 }

end Resumable.Script
