import Resumable.Boxed.Error
import Resumable.Failure.Status

/-!
# Failures

A `Failure` is an error with what it came from: a nature, and under it the source, if there is one.
A failure can carry an explicit status over its source, and several causes can be joined into one.
`Failure.display` words it and `Failure.chain` follows its sources.
-/

namespace Resumable

/-- Conditions reported at the transport boundary. -/
inductive Condition where
  | cancelled
  | deadlineExceeded
  | notFound (what : String)
  | permissionDenied (what : String)
  | connectionReset
  | connectionRefused
  | dnsLookup (host : String)
  | tlsVerification (reason : String)
  | malformedResponse (reason : String)
  | unexpectedEof
  deriving DecidableEq, Repr

/-- The condition of a name; `about` is what it is about, where it is about something. -/
def Condition.named? (name about : String) : Option Condition :=
  [("Cancelled", cancelled), ("DeadlineExceeded", deadlineExceeded), ("NotFound", notFound about),
    ("PermissionDenied", permissionDenied about), ("ConnectionReset", connectionReset),
    ("ConnectionRefused", connectionRefused), ("DnsLookup", dnsLookup about),
    ("TlsVerification", tlsVerification about), ("MalformedResponse", malformedResponse about),
    ("UnexpectedEof", unexpectedEof)].lookup name

/-- The wording of each condition. -/
def Condition.message : Condition → String
  | cancelled => "operation cancelled"
  | deadlineExceeded => "deadline exceeded"
  | notFound what => "not found: " ++ what
  | permissionDenied what => "permission denied: " ++ what
  | connectionReset => "connection reset by peer"
  | connectionRefused => "connection refused"
  | dnsLookup host => "dns lookup failed for " ++ host
  | tlsVerification reason => "tls verification failed: " ++ reason
  | malformedResponse reason => "malformed response: " ++ reason
  | unexpectedEof => "unexpected end of stream"

/-- Faults that the operating system reports on files and connections. -/
inductive SystemFault where
  | notFound
  | permissionDenied
  | connectionRefused
  | connectionReset
  | connectionAborted
  | notConnected
  | brokenPipe
  | timedOut
  | interrupted
  | invalidData
  | invalidInput
  | unexpectedEof
  | alreadyExists
  | wouldBlock
  | other
  deriving DecidableEq, Repr

/-- The fault of a name. -/
def SystemFault.named? (name : String) : Option SystemFault :=
  [("NotFound", notFound), ("PermissionDenied", permissionDenied),
    ("ConnectionRefused", connectionRefused), ("ConnectionReset", connectionReset),
    ("ConnectionAborted", connectionAborted), ("NotConnected", notConnected),
    ("BrokenPipe", brokenPipe), ("TimedOut", timedOut), ("Interrupted", interrupted),
    ("InvalidData", invalidData), ("InvalidInput", invalidInput), ("UnexpectedEof", unexpectedEof),
    ("AlreadyExists", alreadyExists), ("WouldBlock", wouldBlock), ("Other", other)].lookup name

/-- The wording of a fault that comes without one. -/
def SystemFault.message : SystemFault → String
  | notFound => "entity not found"
  | permissionDenied => "permission denied"
  | connectionRefused => "connection refused"
  | connectionReset => "connection reset"
  | connectionAborted => "connection aborted"
  | notConnected => "not connected"
  | brokenPipe => "broken pipe"
  | timedOut => "timed out"
  | interrupted => "operation interrupted"
  | invalidData => "invalid data"
  | invalidInput => "invalid input parameter"
  | unexpectedEof => "unexpected end of file"
  | alreadyExists => "entity already exists"
  | wouldBlock => "operation would block"
  | other => "other error"

/-- A failure that crossed a process boundary: the name of its kind, a message, and optionally an
opaque value and a traceback. -/
structure RemoteError where
  kind : String := ""
  message : String := ""
  value : Option Bytes := none
  traceback : Option Bytes := none
  deriving DecidableEq, Repr, Inhabited

namespace RemoteError

/-- The wording of a remote error: its message, behind its kind if it has one. -/
def display (e : RemoteError) : String :=
  if e.kind.isEmpty then e.message else e.kind ++ ": " ++ e.message

/-- The error with an opaque value. -/
def withValue (e : RemoteError) (value : Bytes) : RemoteError := { e with value := some value }

/-- The error with a traceback. -/
def withTraceback (e : RemoteError) (traceback : Bytes) : RemoteError :=
  { e with traceback := some traceback }

end RemoteError

namespace Failure

/-- What a failure is, apart from where it came from. -/
inductive Nature where
  | condition (condition : Condition)
  /-- A fault of the system, in its wording. -/
  | system (fault : SystemFault) (text : String)
  | wire (error : Wire.Error)
  | codec (error : CodecError)
  | remote (error : RemoteError)
  /-- An await operation that failed, in its wording. -/
  | await (text : String)
  /-- An execution without a driver. -/
  | detached
  /-- A request that the host could not carry out, in its wording. -/
  | host (text : String)
  /-- No instance has this id. -/
  | noInstance (id : UInt64)
  /-- A tree that does not parse, in the parser's wording. -/
  | malformedTree (text : String)
  /-- A text that is not UTF-8, in the reader's wording. -/
  | malformedText (text : String)
  /-- A wait that took too long, in the timer's wording. -/
  | elapsed (text : String)
  /-- A task that was cancelled, in the scheduler's wording. -/
  | cancelledTask (text : String)
  /-- Any failure the library does not know. -/
  | foreign (text : String)
  deriving DecidableEq, Repr

/-- The wording of each nature. -/
def Nature.message : Nature → String
  | condition c => c.message
  | system _ text => text
  | wire e => e.message
  | codec e => e.message
  | remote e => e.display
  | await text => text
  | detached => "execution detached from its driver"
  | host text => text
  | noInstance id => s!"instance {id.toNat} not found"
  | malformedTree text | malformedText text | elapsed text | cancelledTask text | foreign text =>
    text

end Failure

/-- An error with what it came from. -/
inductive Failure where
  /-- An error without a source. -/
  | leaf (nature : Failure.Nature)
  /-- An error over its source. -/
  | caused (nature : Failure.Nature) (source : Failure)
  /-- A status that stands whatever the source is; it is worded as its source. -/
  | explicit (status : Status) (source : Failure)
  /-- Several causes as one; it has no source of its own. -/
  | joined (causes : List Failure)

namespace Failure

/-- The failure that this one came from. -/
def source? : Failure → Option Failure
  | leaf _ | joined _ => none
  | caused _ source | explicit _ source => some source

mutual

/-- The wording of a failure; joined causes stand on lines of their own. -/
def display : Failure → String
  | leaf nature | caused nature _ => nature.message
  | explicit _ source => display source
  | joined causes => "\n".intercalate (displays causes)

/-- The wordings of failures. -/
def displays : List Failure → List String
  | [] => []
  | cause :: rest => display cause :: displays rest

end

/-- The failure and its sources, outermost first. -/
def chain : Failure → List Failure
  | leaf nature => [leaf nature]
  | caused nature source => caused nature source :: chain source
  | explicit status source => explicit status source :: chain source
  | joined causes => [joined causes]

/-- The causes of a joined failure. -/
def causes? : Failure → Option (List Failure)
  | joined causes => some causes
  | leaf _ | caused _ _ | explicit _ _ => none

/-- The status that stands on the outside of a failure. -/
def explicit? : Failure → Option Status
  | explicit status _ => some status
  | leaf _ | caused _ _ | joined _ => none

/-- A failure over a source, where there is one. -/
def ofNature (nature : Nature) : Option Failure → Failure
  | none => leaf nature
  | some source => caused nature source

/-- A failure reported by another one, which is worded as its source behind a lead. -/
def within (lead : String) (source : Failure) : Failure :=
  caused (.foreign (lead ++ source.display)) source

/-- Joins causes into one failure; a single cause is itself. -/
def join : List Failure → Failure
  | [cause] => cause
  | causes => joined causes

/-- A fault of the system. With a reason it is worded as the reason and has the reason's source: the
reason itself does not show in the chain. -/
def ofFault (fault : SystemFault) : Option Failure → Failure
  | none => leaf (.system fault fault.message)
  | some reason => ofNature (.system fault reason.display) reason.source?

end Failure

/-- A codec error as a failure; a wire error is its source. -/
def CodecError.toFailure : CodecError → Failure
  | .wire error => .caused (.codec (.wire error)) (.leaf (.wire error))
  | error => .leaf (.codec error)

end Resumable
