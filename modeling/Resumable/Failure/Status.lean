/-!
# Statuses

A status is the coarse outcome of an execution, as its response carries it. Codes that stand for no
status are read as unspecified.
-/

namespace Resumable

/-- The coarse outcomes of an execution. -/
inductive Status where
  | unspecified
  | ok
  | timeout
  | throttled
  | invalidArgument
  | invalidResponse
  | temporaryError
  | permanentError
  | incompatibleState
  | dnsError
  | tcpError
  | tlsError
  | httpError
  | unauthenticated
  | permissionDenied
  | notFound
  deriving DecidableEq, Repr, Inhabited

namespace Status

/-- Every status, in the order of the codes. -/
def all : List Status :=
  [unspecified, ok, timeout, throttled, invalidArgument, invalidResponse, temporaryError,
    permanentError, incompatibleState, dnsError, tcpError, tlsError, httpError, unauthenticated,
    permissionDenied, notFound]

/-- The code by which frames name the status: its place among all of them. -/
def code (s : Status) : UInt64 := UInt64.ofNat (all.idxOf s)

/-- The status of a code; unspecified if there is none. -/
def ofCode (code : UInt64) : Status := (all[code.toNat]?).getD unspecified

/-- The status of an answer of a web server. -/
def ofHttpCode (code : Nat) : Status :=
  match code with
  | 400 => invalidArgument
  | 401 => unauthenticated
  | 403 => permissionDenied
  | 404 => notFound
  | 408 => timeout
  | 429 => throttled
  | 501 => permanentError
  | _ =>
    match code / 100 with
    | 2 => ok
    | 4 => permanentError
    | 5 => temporaryError
    | _ => unspecified

/-- The status's name. -/
def name : Status → String
  | unspecified => "Unspecified"
  | ok => "OK"
  | timeout => "Timeout"
  | throttled => "Throttled"
  | invalidArgument => "InvalidArgument"
  | invalidResponse => "InvalidResponse"
  | temporaryError => "TemporaryError"
  | permanentError => "PermanentError"
  | incompatibleState => "IncompatibleState"
  | dnsError => "DNSError"
  | tcpError => "TCPError"
  | tlsError => "TLSError"
  | httpError => "HTTPError"
  | unauthenticated => "Unauthenticated"
  | permissionDenied => "PermissionDenied"
  | notFound => "NotFound"

@[simp] theorem ofCode_code (s : Status) : ofCode s.code = s := by
  cases s <;> decide

end Status

end Resumable
