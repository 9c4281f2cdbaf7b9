import Resumable.Host.Basic
import Resumable.Host.Script
import Resumable.Proofs.Await.Outcome
import Resumable.Proofs.Execution.Driven

/-!
# Relayed errors

A handler that calls another function and propagates the error of the call (`Callee.relay`) does not
relay the error that the call failed with. Awaiting the call ends with an await error over it, so the
function exits with one of kind `corun::AwaitError` whose message repeats the error twice and which has
neither its value nor its traceback (`Callee.relayed_error_is_wrapped`). The branch of
`Callee.outputOf` that hands an error over as it is would relay it, but what is awaited never reaches it
(`Callee.error_eq_none_of_awaited`).
-/

namespace Resumable

open CallResult (firstFor?)

variable {ω ι ο κ ρ : Type} {maxWait : Span}

/-- Whether a request resumes with these results. -/
def Request.Brings (request : Request) (results : List CallResult) : Prop :=
  ∃ state, request.directive = .pollResult { results, state }

theorem Request.Brings.delivered_eq {request : Request} {results : List CallResult}
    (h : request.Brings results) : request.delivered = results := by
  obtain ⟨state, h⟩ := h
  rw [delivered, h]
  rfl

/-! ## An operation on one call -/

namespace Operation

variable {strategy : Strategy} {drawn : List UInt64} {seen results : List CallResult} {id : UInt64}
  {request : Request} {answer : Except AwaitError Slots}

/-- An operation answers at the first verdict. -/
theorem Answers.of_verdict {used : List Request} (hdup : drawn.Nodup) (op : Operation)
    (hused : Undecided op.strategy drawn seen used)
    (hverdict : verdict op.strategy drawn (seen ++ delivered used) request = some answer) :
    (op.tracking drawn seen).Answers (used ++ [request]) answer := by
  induction used generalizing op seen with
  | nil =>
    refine .now ((receive_tracking hdup { op with outgoing := [] } request).trans ?_)
    rw [delivered_nil, List.append_nil] at hverdict
    simp only [hverdict]
  | cons other rest ih =>
    obtain ⟨hother, hrest⟩ := hused
    refine .later ((receive_tracking hdup { op with outgoing := [] } other).trans ?_)
      (ih { op with outgoing := [] } hrest ?_)
    · simp only [hother]
    · rw [delivered_cons, ← List.append_assoc] at hverdict
      exact hverdict

/-- The verdict on an operation on one call, which has no result so far, is that of the first result
for it. -/
theorem verdict_single (hseen : firstFor? id seen = none) (h : request.Brings results) :
    verdict .all [id] seen request = (firstFor? id results).map fun r =>
      if r.isFailure then .error (failure [some r]) else .ok [some r] := by
  obtain ⟨state, h⟩ := h
  simp only [verdict, h, batchVerdict, attributed, recorded, List.map_cons, List.map_nil,
    List.filterMap_cons, List.filterMap_nil, CallResult.firstFor?_append, hseen, Option.none_or,
    Option.isNone_none, if_true]
  cases firstFor? id results with
  | none => rfl
  | some r => cases hr : r.isFailure <;> simp [hr]

/-- Requests without a result for the one call leave the operation undecided. -/
theorem undecided_single {others : List Request} (hseen : firstFor? id seen = none)
    (h : ∀ other ∈ others, ∃ results, other.Brings results ∧ firstFor? id results = none) :
    Undecided .all [id] seen others ∧ firstFor? id (seen ++ delivered others) = none := by
  induction others generalizing seen with
  | nil => exact ⟨trivial, by rwa [delivered_nil, List.append_nil]⟩
  | cons other rest ih =>
    rw [List.forall_mem_cons] at h
    obtain ⟨⟨results, hbrings, hnone⟩, hrest⟩ := h
    have hseen' : firstFor? id (seen ++ results) = none := by
      rw [CallResult.firstFor?_append, hseen, hnone]
      rfl
    rw [delivered_cons, Undecided, verdict_single hseen hbrings, hbrings.delivered_eq, hnone,
      ← List.append_assoc]
    obtain ⟨hundecided, hafter⟩ := ih hseen' hrest
    exact ⟨⟨rfl, hundecided⟩, hafter⟩

/-- An operation on one call answers at the first result for it. -/
theorem answers_single {ids : Ids} {call : Call} {others : List Request} {r : CallResult}
    (hothers : ∀ other ∈ others, ∃ results, other.Brings results ∧
      firstFor? ids.upcoming results = none)
    (hrequest : request.Brings results) (hresult : firstFor? ids.upcoming results = some r) :
    (start .all maxWait [call] ids).1.Answers (others ++ [request])
      (if r.isFailure then .error (failure [some r]) else .ok [some r]) := by
  obtain ⟨hundecided, hafter⟩ := undecided_single (CallResult.firstFor?_nil _) hothers
  have hverdict := verdict_single hafter hrequest
  rw [hresult, Option.map_some] at hverdict
  rw [start_tracking]
  exact .of_verdict (List.nodup_singleton _) _ hundecided hverdict

end Operation

namespace Callee

open Process

/-! ## Handlers that call a function -/

/-- What a handler does that calls a function: it goes on with the output, and propagates an error
unchanged. -/
def relay (f : Callee κ ρ) (ctx : Context) (input : κ)
    (rest : ρ → Process ω (Except HandlerError ο)) : Process ω (Except HandlerError ο) := do
  match ← f.await ctx input with
  | .ok output => rest output
  | .error e => return .error e

/-- The error of an awaited call that failed with a remote error. -/
def failedWith (e : RemoteError) : HandlerError :=
  .ofFailure (.caused (.await ("call failed: " ++ e.display)) (.leaf (.remote e)))

variable {f : Callee κ ρ} {ctx : Context} {input : κ} {call : Call}

/-- A handler that has called a function is left with an await error over the error of the call. -/
theorem reaches_failedWith {rest : ρ → Process ω (Except HandlerError ο)} {w : Shared ω}
    {others : List Request} {request : Request} {results : List CallResult} {r : CallResult}
    {e : RemoteError} (hcall : f.call ctx input = .ok call)
    (hothers : ∀ other ∈ others, ∃ results, other.Brings results ∧
      firstFor? w.ids.upcoming results = none)
    (hrequest : request.Brings results) (hresult : firstFor? w.ids.upcoming results = some r)
    (herror : r.error = some e) :
    (f.relay ctx input rest).Reaches maxWait w (others ++ [request])
      (.done (.error (failedWith e))) { w with ids := w.ids.after 1 } := by
  obtain ⟨next, hrelay, hnext⟩ : ∃ next, f.relay ctx input rest = .await .all [call] next ∧
      ∀ error, next (.error error) = .done (.error (.ofFailure error.toFailure)) := by
    rw [relay, await, hcall]
    exact ⟨_, rfl, fun _ => rfl⟩
  have hanswers : (Operation.start .all maxWait [call] w.ids).1.Answers (others ++ [request]) _ :=
    Operation.answers_single hothers hrequest hresult
  rw [if_pos (by rw [CallResult.isFailure, herror]; rfl)] at hanswers
  -- the errors of the operation are those of its one result, so their join is this error
  have hfailure : (Operation.failure [some r]).toFailure = (failedWith e).cause := by
    have herrors : Operation.errors [some r] = [e] := by simp [Operation.errors, herror]
    rw [Operation.failure, herrors]
    rfl
  rw [hrelay, ← List.append_nil (others ++ [request])]
  refine .await (List.cons_ne_nil _ _) hanswers ?_
  rw [hnext, hfailure, Operation.start_snd]
  exact .here _ _

/-- The outputs of an awaited call never hold an error: the operation would have failed with it. -/
theorem error_eq_none_of_awaited {ids : Ids} {script : List Request} {slots : Slots}
    (h : (Operation.awaitCalls .all maxWait [call] ids script).1.answer = .ok slots) :
    ∃ r, slots = [some r] ∧ r.error = none ∧ f.outputOf slots =
      ((r.output.getD .null).unbox f.output).mapError fun e => .ofFailure e.toFailure := by
  have hends := Operation.awaitCalls_ends .all maxWait (List.cons_ne_nil call []) (by simp) ids script
  obtain ⟨used, -, hslots⟩ := hends.slots_eq
  have hsingle : slots = [firstFor? ids.upcoming (Operation.delivered used)] :=
    hslots slots (by rw [h]; rfl)
  obtain ⟨r, hr, hsuccess⟩ := (hends.meaning (List.cons_ne_nil _ _)).ok_all rfl slots h
    (firstFor? ids.upcoming (Operation.delivered used)) (by rw [hsingle]; simp)
  have herror : r.error = none := by simpa [CallResult.isFailure] using hsuccess
  refine ⟨r, by rw [hsingle, hr], herror, ?_⟩
  rw [hsingle, hr, outputOf]
  simp [herror]

/-! ## The error that a handler exits with -/

theorem toRemote_failedWith (e : RemoteError) :
    (failedWith e).toRemote =
      { kind := "corun::AwaitError", message := "call failed: " ++ e.display ++ ": " ++ e.display } :=
  rfl

/-- The causes of an await error are not looked at. -/
theorem classify_failedWith (e : RemoteError) :
    (failedWith e).toFailure.classify = .unspecified :=
  rfl

/-- The wording of a remote error is no shorter than its message. -/
theorem length_message_le (e : RemoteError) : e.message.length ≤ e.display.length := by
  rw [RemoteError.display]
  split
  · exact Nat.le_refl _
  · rw [String.length_append]
    exact Nat.le_add_left _ _

/-- No remote error is left as it is. -/
theorem toRemote_failedWith_ne (e : RemoteError) : (failedWith e).toRemote ≠ e := by
  intro h
  have hmessage := congrArg (String.length ·.message) h
  have hle := length_message_le e
  simp only [toRemote_failedWith, String.length_append] at hmessage
  have hlead : "call failed: ".length = 13 := by decide
  omega

variable {g : TypedFunction ω ι ο} {boxed : Boxed} {value : ι}

/-- A function whose handler has come to a call, and propagates its error, exits with the await error
once the call has failed: whatever the handler did before, and whatever the requests brought that had
no result for the call. This is never the error that the call failed with, whose value and traceback
are lost. -/
theorem relayed_error_is_wrapped {rest : ρ → Process ω (Except HandlerError ο)} {w w' : Shared ω}
    {earlier others : List Request} {request : Request} {results : List CallResult} {r : CallResult}
    {e : RemoteError} (hvalue : boxed.unbox g.input = .ok value)
    (hreaches : (g.handler ctx value).Reaches maxWait w earlier (f.relay ctx input rest) w')
    (hcall : f.call ctx input = .ok call)
    (hothers : ∀ other ∈ others, ∃ results, other.Brings results ∧
      firstFor? w'.ids.upcoming results = none)
    (hrequest : request.Brings results) (hresult : firstFor? w'.ids.upcoming results = some r)
    (herror : r.error = some e) :
    ∃ exit, ((Execution.spawn (Process.body maxWait (g.toFunction.run ctx boxed))).driven w
          (earlier ++ (others ++ [request]))).1 = .response (.exit .unspecified exit) ∧
      exit.result = .ofError
        { kind := "corun::AwaitError"
          message := "call failed: " ++ e.display ++ ": " ++ e.display } ∧
      exit.result.error ≠ some e := by
  have hrun : g.toFunction.run ctx boxed =
      (g.handler ctx value).bind fun answer => .done (g.respond answer) := by
    simp only [TypedFunction.toFunction, hvalue]
    rfl
  have hrespond : g.respond (.error (failedWith e)) =
      .exit .unspecified { result := .ofError (failedWith e).toRemote } := by
    rw [TypedFunction.respond, classify_failedWith]
  have hdone := hreaches.trans (reaches_failedWith hcall hothers hrequest hresult herror)
  refine ⟨{ result := .ofError (failedWith e).toRemote }, ?_, rfl, ?_⟩
  · rw [hrun, Execution.driven_of_reaches hdone]
    exact congrArg Reply.response hrespond
  · intro h
    exact toRemote_failedWith_ne e (Option.some.inj h)

/-- A function that hands its input on to a callee. -/
def forwarding (callee : Callee Value Value) : TypedFunction ω Value Value where
  name := "forward"
  input := .untyped
  output := .untyped
  handler ctx value := callee.relay ctx value fun output => .done (.ok output)

/-- A function that hands null on, is woken once without a result, and then with a failed one. -/
theorem relayed_error_is_wrapped_of_forwarding :
    let e : RemoteError :=
      { kind := "app::Error", message := "boom", value := some [1, 2], traceback := some [3] }
    let ctx : Context := ⟨"forward", "", "", "", "https://example.com", .zero⟩
    let callee : Callee Value Value := ⟨"callee", Forms.untyped, .untyped⟩
    let early : Request := { function := "forward", directive := .pollResult {} }
    let late : Request := { function := "forward", directive := .pollResult { results :=
      [{ correlationId := 1000, error := some e }] } }
    ∃ exit, ((Execution.spawn (Process.body .zero
          ((forwarding callee : TypedFunction Unit _ _).toFunction.run ctx .null))).driven
          ⟨.startingAt 1000, []⟩ [early, late]).1 = .response (.exit .unspecified exit) ∧
      exit.result.error ≠ some e := by
  intro e ctx callee early late
  have hcall : callee.call ctx .null =
      .ok { endpoint := "https://example.com", function := "callee", input := .null } := rfl
  have hearly : ∀ other ∈ [early], ∃ results, other.Brings results ∧
      firstFor? 1000 results = none := by
    intro other hother
    obtain rfl := List.mem_singleton.1 hother
    exact ⟨[], ⟨_, rfl⟩, rfl⟩
  have hlate : late.Brings [{ correlationId := 1000, error := some e }] := ⟨_, rfl⟩
  have hvalue : Boxed.null.unbox (forwarding callee : TypedFunction Unit _ _).input = .ok .null := rfl
  have hhere : ((forwarding callee : TypedFunction Unit _ _).handler ctx .null).Reaches .zero
      ⟨.startingAt 1000, []⟩ [] (callee.relay ctx .null fun output => .done (.ok output))
      ⟨.startingAt 1000, []⟩ := .here _ _
  obtain ⟨exit, hreply, -, hne⟩ :=
    relayed_error_is_wrapped hvalue hhere hcall hearly hlate rfl rfl
  exact ⟨exit, hreply, hne⟩

end Callee

namespace Host

/-- A host whose function `f` calls `callee` with a text for an integer, under the ids from 1000 on. -/
def delegating : Host (Script.Note Value) where
  functions := [Script.function "f" .untyped [{
    action := .call "callee"
      ((Target.integer ⟨true, .w64⟩).map fun n => .int (.ofInt n.val)) (Forms.string "arg") }]]
  ids := .startingAt 1000
  endpoint := "https://example.com"

/-- The error that the call fails with is not what the host's function exits with. -/
theorem relayed_error_lost :
    let e : RemoteError :=
      { kind := "app::Error", message := "boom", value := some [1, 2], traceback := some [3] }
    let begun := delegating.run { function := "f", directive := .input .null }
    let ended := begun.host.run { function := "f", directive := .pollResult {
      state := ⟨.uint, (Wire.Item.u64 1001).toBytes⟩
      results := [{ correlationId := 1000, error := some e }] } }
    ended.response = .exit .unspecified { result := .ofError {
        kind := "corun::AwaitError"
        message := "call failed: app::Error: boom: app::Error: boom" } } ∧
      ended.response ≠ .exit .unspecified { result := .ofError e } := by
  intro e begun ended
  have hresponse : ended.response = .exit .unspecified { result := .ofError {
      kind := "corun::AwaitError"
      message := "call failed: app::Error: boom: app::Error: boom" } } := by rfl
  refine ⟨hresponse, ?_⟩
  rw [hresponse]
  decide

end Host

end Resumable
