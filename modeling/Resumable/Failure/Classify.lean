import Resumable.Failure.Basic

/-!
# Classification

Every failure has a status. An explicit status stands; joined causes have the status they agree on;
an error whose nature has a status has that; any other error has the status of its source. The way
down ends after `maxSteps` failures. `Failure.classifyFully` is the same rule without that end.
-/

namespace Resumable

/-- The status of each condition. -/
def Condition.status : Condition → Status
  | cancelled => .temporaryError
  | deadlineExceeded => .timeout
  | notFound _ => .notFound
  | permissionDenied _ => .permissionDenied
  | connectionReset | connectionRefused => .tcpError
  | dnsLookup _ => .dnsError
  | tlsVerification _ => .tlsError
  | malformedResponse _ => .invalidResponse
  | unexpectedEof => .temporaryError

/-- The status of each fault of the system that has one. -/
def SystemFault.status? : SystemFault → Option Status
  | interrupted => some .temporaryError
  | timedOut => some .timeout
  | notFound => some .notFound
  | permissionDenied => some .permissionDenied
  | connectionReset | connectionRefused | connectionAborted | notConnected | brokenPipe =>
    some .tcpError
  | invalidData => some .invalidResponse
  | unexpectedEof => some .temporaryError
  | invalidInput | alreadyExists | wouldBlock | other => none

namespace Failure

/-- The status of each nature that has one. -/
def Nature.status? : Nature → Option Status
  | condition c => some c.status
  | system fault _ => fault.status?
  | wire _ | malformedTree _ | malformedText _ => some .invalidResponse
  | elapsed _ => some .timeout
  | cancelledTask _ => some .temporaryError
  | codec _ | remote _ | await _ | detached | host _ | noInstance _ | foreign _ => none

/-- The status that all of some causes have; unspecified if they differ or there are none. -/
def commonStatus : List Status → Status
  | [] => .unspecified
  | s :: rest => if rest.all (· = s) then s else .unspecified

/-- Failures looked at on one way down. -/
def maxSteps : Nat := 16

/-- The status of a failure, found within so many steps; unspecified when they run out. -/
def classifyWithin : (steps : Nat) → Failure → Status
  | 0, _ => .unspecified
  | _ + 1, leaf nature => nature.status?.getD .unspecified
  | steps + 1, caused nature source =>
    match nature.status? with
    | some s => s
    | none => classifyWithin steps source
  | _ + 1, explicit s _ => s
  | steps + 1, joined causes => commonStatus (causes.map (classifyWithin steps))

/-- The status of a failure. -/
def classify (f : Failure) : Status := f.classifyWithin maxSteps

mutual

/-- The status of a failure by the same rules, however deep they lead. -/
def classifyFully : Failure → Status
  | leaf nature => nature.status?.getD .unspecified
  | caused nature source =>
    match nature.status? with
    | some s => s
    | none => classifyFully source
  | explicit s _ => s
  | joined causes => commonStatus (classifyAllFully causes)

/-- The statuses of causes, however deep the rules lead. -/
def classifyAllFully : List Failure → List Status
  | [] => []
  | cause :: rest => classifyFully cause :: classifyAllFully rest

end

end Failure

end Resumable
