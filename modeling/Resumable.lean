import Resumable.Host.Basic
import Resumable.Host.Script
import Resumable.Wire.Item
import Resumable.Proofs.Await.Attribution
import Resumable.Proofs.Await.Verdict
import Resumable.Proofs.Await.Outcome
import Resumable.Proofs.Await.Dispatch
import Resumable.Proofs.Await.Isolation
import Resumable.Proofs.Bytes
import Resumable.Proofs.Wire.Cursor
import Resumable.Proofs.Wire.Writable
import Resumable.Proofs.Wire.Reading
import Resumable.Proofs.Wire.Draft
import Resumable.Proofs.Wire.Writing
import Resumable.Proofs.Wire.Run
import Resumable.Proofs.Boxed.Trees
import Resumable.Proofs.Boxed.RoundTrip
import Resumable.Proofs.Frame.Records
import Resumable.Proofs.Frame.RoundTrip
import Resumable.Proofs.Frame.Rearranged
import Resumable.Proofs.Frame.Compatible
import Resumable.Proofs.Await.Absorption
import Resumable.Proofs.Execution.Parked
import Resumable.Proofs.Execution.Process
import Resumable.Proofs.Execution.Underway
import Resumable.Proofs.Residents
import Resumable.Proofs.Host.Step
import Resumable.Proofs.Host.Lives
import Resumable.Proofs.Host.Chronicle
import Resumable.Proofs.Host.Residency
import Resumable.Proofs.Host.Routing
import Resumable.Proofs.Host.Redelivery
import Resumable.Proofs.Boxed.Canonical
import Resumable.Proofs.Boxed.Integers
import Resumable.Proofs.Failure.Classify
import Resumable.Proofs.Execution.Driven
import Resumable.Proofs.Host.Relay
import Resumable.Proofs.Boxed.Capabilities
import Resumable.Proofs.Boxed.Wrappers
import Resumable.Proofs.Residents.History
import Resumable.Proofs.Execution.Exchange
import Resumable.Proofs.Execution.Turns
import Resumable.Proofs.Wire.Exact
import Resumable.Proofs.Wire.Walk
import Resumable.Proofs.Boxed.Leftovers
import Resumable.Proofs.Frame.Leftovers
import Resumable.Proofs.Frame.PrefixFree
import Resumable.Proofs.Frame.Instants
import Resumable.Proofs.Host.Refusal
import Resumable.Proofs.Boxed.Narrowed
import Resumable.Proofs.Failure.Aggregate
import Resumable.Proofs.Failure.Contexts
import Resumable.Proofs.Execution.Played
import Resumable.Proofs.Execution.Gathered
import Resumable.Proofs.Wire.Skip
import Resumable.Proofs.Wire.Windows
import Resumable.Proofs.Wire.Failed
import Resumable.Proofs.Frame.Directives
import Resumable.Proofs.Number.Nearest
import Resumable.Proofs.Number.Narrowing
import Resumable.Proofs.Boxed.Singles
