import Resumable.Failure.Classify

/-!
# Failures as remote errors

A failure crosses a process boundary as a remote error: a kind that names what it is, and a message.
A remote error that is relayed keeps its own kind. `HandlerError` is what a function's handler fails
with: a cause with texts put around it; they lead the message and never hide a relayed remote error.
-/

namespace Resumable

namespace Failure

/-- The remote error that the failure itself is, if it is one. -/
def remote? : Failure → Option RemoteError
  | leaf (.remote e) | caused (.remote e) _ => some e
  | _ => none

/-- The name of what a failure is, as far as other processes know it. -/
def kindName : Failure → String
  | leaf (.codec _) | caused (.codec _) _ => "callproto::Error"
  | explicit _ _ => "callproto::StatusError"
  | leaf (.condition _) | caused (.condition _) _ => "callproto::Condition"
  | joined _ => "callproto::Joined"
  | leaf (.system _ _) | caused (.system _ _) _ => "std::io::Error"
  | leaf (.malformedTree _) | caused (.malformedTree _) _ => "serde_json::Error"
  | _ => "error"

/-- The remote error of a failure of which only the failure is known. -/
def toRemote (f : Failure) : RemoteError :=
  match f.remote? with
  | some e => e
  | none => { kind := f.kindName, message := f.display }

/-- The remote error of a failure whose type is known by name. -/
def toRemoteNamed (typeName : String) (f : Failure) : RemoteError :=
  match f.remote? with
  | some e => e
  | none => { kind := typeName, message := f.display }

/-- The kind by which a failed handler names an error in its chain, if the error is known. -/
def knownKind? : Failure → Option String
  | leaf (.await _) | caused (.await _) _ => some "corun::AwaitError"
  | leaf .detached | caused .detached _ => some "corun::suspend::Error"
  | leaf (.host _) | caused (.host _) _ => some "corun::runtime::Error"
  | f =>
    let kind := f.toRemote.kind
    if kind = "" ∨ kind = "error" then none else some kind

end Failure

/-- What a handler fails with: a cause, and the texts put around it, outermost first. -/
structure HandlerError where
  contexts : List String
  cause : Failure

namespace HandlerError

/-- A cause without texts around it. -/
def ofFailure (cause : Failure) : HandlerError := ⟨[], cause⟩

/-- A failure told in words. -/
def told (text : String) : HandlerError := ofFailure (.leaf (.foreign text))

/-- Puts a text around an error. -/
def withContext (text : String) (e : HandlerError) : HandlerError :=
  { e with contexts := text :: e.contexts }

/-- The error as a failure: each text is a failure over what it was put around. -/
def toFailure (e : HandlerError) : Failure :=
  e.contexts.foldr (fun text source => .caused (.foreign text) source) e.cause

/-- The wording of an error and all its sources. -/
def message (e : HandlerError) : String := ": ".intercalate (e.toFailure.chain.map Failure.display)

/-- The remote error that a failed handler exits with: a relayed one as it is, and otherwise one
whose kind is that of the first known error in the chain and whose message words the whole chain. -/
def toRemote (e : HandlerError) : RemoteError :=
  match e.cause.remote? with
  | some remote => remote
  | none =>
    { kind := (e.toFailure.chain.findSome? Failure.knownKind?).getD "error", message := e.message }

end HandlerError

end Resumable
