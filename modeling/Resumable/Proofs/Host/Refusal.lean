import Resumable.Proofs.Boxed.Integers
import Resumable.Proofs.Host.Lives

/-!
# Refusals

A host refuses a request for a function that it does not have, and a request to resume whose state
is no id or the id of no resident; and it refuses to register a function under a name that is taken.
`Host.Refuses` relates each of these to its answer, and no request is refused for another reason
(`refuses_iff_route`). The only state that is an id is the boxed form of one
(`instanceId_eq_ok_iff`), and any other state is refused (`exists_refuses_of_ne_ofId`).

`Host.answers` is all that comes back from a host over a list of commands. A refused command leaves
the host as it is, so it can be taken out of the list with its own answer, and nothing else changes
(`refused_as_if_never_sent`).
-/

namespace Resumable

variable {ω : Type}

/-- A request is refused with an exit that tells the cause as a remote error. -/
theorem HostError.response_eq (e : HostError) (status : Status) :
    e.response status = .exit status { result := .ofError {
      kind := "callproto::StatusError"
      message := e.message } } := by
  cases e <;> rfl

namespace Host

/-! ## Answers -/

/-- What comes back from a host. -/
inductive Answer (ω : Type) where
  | registered (result : Except HostError Unit)
  /-- The response to a request, with the notes taken meanwhile. -/
  | responded (response : Response) (notes : List ω)
  | closed

/-- The answer to a request that is refused: a failed exit. -/
def Answer.refused (status : Status) (e : HostError) : Answer ω :=
  .responded
    (.exit status { result := .ofError { kind := "callproto::StatusError", message := e.message } })
    []

/-- What a host answers to a command. -/
def answer (host : Host ω) : Command ω → Answer ω
  | .register f => .registered ((host.register f).map fun _ => ())
  | .run request =>
    let outcome := host.run request
    .responded outcome.response outcome.notes
  | .close => .closed

/-- What a host answers to one command after another. -/
def answers (host : Host ω) : List (Command ω) → List (Answer ω)
  | [] => []
  | command :: rest => host.answer command :: (host.execute command).answers rest

theorem answers_append (host : Host ω) (before after : List (Command ω)) :
    host.answers (before ++ after) =
      host.answers before ++ (before.foldl execute host).answers after := by
  induction before generalizing host with
  | nil => rfl
  | cons command rest ih =>
    rw [List.cons_append, answers, ih, answers, List.foldl_cons, List.cons_append]

/-! ## What is refused -/

/-- A name is looked up in vain if no function has it. -/
theorem lookup_eq_error_iff {host : Host ω} {name : String} {error : HostError} :
    host.lookup name = .error error ↔
      (∀ f ∈ host.functions, f.name ≠ name) ∧ error = .functionNotFound name := by
  have hnone : host.functions.find? (·.name == name) = none ↔
      ∀ f ∈ host.functions, f.name ≠ name := by simp
  rw [← hnone]
  unfold lookup
  cases host.functions.find? (·.name == name) <;> simp [eq_comm]

theorem exists_lookup_iff {host : Host ω} {name : String} :
    (∃ f, host.lookup name = .ok f) ↔ ∃ f ∈ host.functions, f.name = name := by
  simp only [lookup_eq_ok_iff, ← Option.isSome_iff_exists, List.find?_isSome, beq_iff_eq]

theorem instanceId_eq_error_iff {state : Boxed} {error : CodecError} :
    instanceId state = .error error ↔ state.unbox (Target.integer idType) = .error error := by
  unfold instanceId
  cases state.unbox (Target.integer idType) <;> simp [Except.map]

/-- A state is the id of an instance in its boxed form alone. -/
theorem instanceId_eq_ok_iff {state : Boxed} {id : UInt64} :
    instanceId state = .ok id ↔ state = .ofId id := by
  constructor
  · intro h
    cases hunbox : state.unbox (Target.integer idType) with
    | error error =>
      rw [instanceId_eq_error_iff.2 hunbox] at h
      cases h
    | ok n =>
      rw [instanceId, hunbox] at h
      cases h
      have hbox : (Value.uint (UInt64.ofNat n.val.toNat)).encode = .ok state :=
        Number.IntegerType.box_of_unbox hunbox
      rw [encode_id] at hbox
      exact (Except.ok.inj hbox).symm
  · rintro rfl
    exact instanceId_ofId id

/-- Commands that a host refuses, with its answers. -/
inductive Refuses (host : Host ω) : Command ω → Answer ω → Prop where
  /-- A request, to start or to resume, names a function that is not registered. -/
  | function {request : Request} (hname : ∀ f ∈ host.functions, f.name ≠ request.function) :
      Refuses host (.run request) (.refused .notFound (.functionNotFound request.function))
  /-- The state of a request to resume does not unbox to an id. -/
  | state {request : Request} {result : PollResult} {error : CodecError}
      (hname : ∃ f ∈ host.functions, f.name = request.function)
      (hdirective : request.directive = .pollResult result)
      (hstate : result.state.unbox (Target.integer idType) = .error error) :
      Refuses host (.run request) (.refused .incompatibleState (.invalidState error))
  /-- The state of a request to resume is an id under which nothing is resident. -/
  | resident {request : Request} {result : PollResult} {id : UInt64}
      (hname : ∃ f ∈ host.functions, f.name = request.function)
      (hdirective : request.directive = .pollResult result)
      (hstate : instanceId result.state = .ok id) (hid : id ∉ host.residents.keys) :
      Refuses host (.run request) (.refused .incompatibleState (.instanceNotFound id))
  /-- The name of a function is taken. -/
  | name {f : Function ω} (hname : ∃ g ∈ host.functions, g.name = f.name) :
      Refuses host (.register f) (.registered (.error (.duplicateFunction f.name)))

variable {host : Host ω} {request : Request} {command : Command ω} {answer : Answer ω}

/-- The requests that are refused are those that go nowhere. -/
theorem refuses_iff_route :
    host.Refuses (.run request) answer ↔
      ∃ status error, host.route request = .refused status error ∧
        answer = .refused status error := by
  constructor
  · intro h
    cases h with
    | function hname =>
      have hlookup := lookup_eq_error_iff.2 ⟨hname, rfl⟩
      exact ⟨_, _, by rw [route, hlookup], rfl⟩
    | state hname hdirective hstate =>
      obtain ⟨f, hlookup⟩ := exists_lookup_iff.2 hname
      have hinvalid := instanceId_eq_error_iff.2 hstate
      exact ⟨_, _, by simp only [route, hlookup, hdirective, hinvalid], rfl⟩
    | resident hname hdirective hstate hid =>
      obtain ⟨f, hlookup⟩ := exists_lookup_iff.2 hname
      have hroute := route_of_pollResult hlookup hdirective hstate
      rw [Residents.find?_eq_none_iff.2 hid] at hroute
      exact ⟨_, _, hroute, rfl⟩
  · rintro ⟨status, error, hroute, rfl⟩
    unfold route at hroute
    cases hlookup : host.lookup request.function with
    | error missing =>
      obtain ⟨hname, rfl⟩ := lookup_eq_error_iff.1 hlookup
      rw [hlookup] at hroute
      cases hroute
      exact .function hname
    | ok f =>
      have hname := exists_lookup_iff.1 ⟨f, hlookup⟩
      cases hdirective : request.directive with
      | input input =>
        simp only [hlookup, hdirective] at hroute
        cases hroute
      | pollResult result =>
        simp only [hlookup, hdirective] at hroute
        cases hstate : instanceId result.state with
        | error invalid =>
          rw [hstate] at hroute
          cases hroute
          exact .state hname hdirective (instanceId_eq_error_iff.1 hstate)
        | ok id =>
          cases hfind : host.residents.find? id with
          | none =>
            simp only [hstate, hfind] at hroute
            cases hroute
            exact .resident hname hdirective hstate (Residents.find?_eq_none_iff.1 hfind)
          | some e =>
            simp only [hstate, hfind] at hroute
            cases hroute

/-- Every state but the boxed ids is refused, whatever its shape and its payload. -/
theorem exists_refuses_of_ne_ofId {result : PollResult}
    (hname : ∃ f ∈ host.functions, f.name = request.function)
    (hdirective : request.directive = .pollResult result)
    (hstate : ∀ id, result.state ≠ .ofId id) :
    ∃ error, host.Refuses (.run request) (.refused .incompatibleState (.invalidState error)) := by
  obtain ⟨error, herror⟩ : ∃ error, instanceId result.state = .error error := by
    rw [exists_error_iff]
    rintro ⟨id, hid⟩
    exact hstate id (instanceId_eq_ok_iff.1 hid)
  exact ⟨error, .state hname hdirective (instanceId_eq_error_iff.1 herror)⟩

/-! ## What comes of a refusal -/

namespace Refuses

theorem register_eq {f : Function ω} (hname : ∃ g ∈ host.functions, g.name = f.name) :
    host.register f = .error (.duplicateFunction f.name) := by
  have hany : host.functions.any (·.name == f.name) = true := by simpa using hname
  rw [register, if_pos hany]

/-- A refused command is answered with its refusal. -/
theorem answer_eq (h : host.Refuses command answer) : host.answer command = answer := by
  cases command with
  | register f =>
    cases h with
    | name hname => rw [Host.answer, register_eq hname, Except.map]
  | run request =>
    obtain ⟨status, error, hroute, rfl⟩ := refuses_iff_route.1 h
    simp only [Host.answer, run_of_refused hroute, refuse, HostError.response_eq]
    rfl
  | close => cases h

/-- A refused command leaves a host as it is. -/
theorem execute_eq (h : host.Refuses command answer) : host.execute command = host := by
  cases command with
  | register f =>
    cases h with
    | name hname =>
      rw [execute, register_eq hname]
      rfl
  | run request =>
    obtain ⟨status, error, hroute, -⟩ := refuses_iff_route.1 h
    rw [execute, run_of_refused hroute, refuse]
  | close => cases h

/-- Behind a refused command a host answers as if it had not been there. -/
theorem answers_cons (h : host.Refuses command answer) (after : List (Command ω)) :
    host.answers (command :: after) = answer :: host.answers after := by
  rw [answers, h.answer_eq, h.execute_eq]

end Refuses

/-- A command that is refused changes nothing, at any time: neither the functions, nor the residents
and how far each has come, nor the ids that will be drawn. Whatever comes behind it is answered as
if it had never been sent, and a name stays with the function that was registered under it first. -/
theorem refused_as_if_never_sent (ids : Ids) (endpoint : String) (maxWait : Span)
    (before : List (Command ω)) (command : Command ω) (answer : Answer ω)
    (h : (before.foldl execute (.fresh ids endpoint maxWait)).Refuses command answer) :
    let origin : Host ω := .fresh ids endpoint maxWait
    let host := before.foldl execute origin
    host.answer command = answer ∧ host.execute command = host ∧
    (∀ after,
      origin.answers (before ++ command :: after) =
        origin.answers before ++ answer :: host.answers after ∧
      origin.answers (before ++ after) = origin.answers before ++ host.answers after ∧
      (before ++ command :: after).foldl execute origin =
        (before ++ after).foldl execute origin) ∧
    ∀ name f, host.lookup name = .ok f → ∀ after,
      ((command :: after).foldl execute host).lookup name = .ok f := by
  intro origin host
  refine ⟨h.answer_eq, h.execute_eq, fun after => ⟨?_, ?_, ?_⟩, fun name f hlookup after => ?_⟩
  · rw [answers_append, Refuses.answers_cons h]
  · rw [answers_append]
  · rw [List.foldl_append, List.foldl_append, List.foldl_cons, Refuses.execute_eq h]
  · exact lookup_foldl_execute hlookup _

/-- One execution is resident. A request that names no function, one whose state is malformed, one
whose state is the id of no resident, and a function of a name that is taken are refused, and then
the execution goes on as it would have without. -/
theorem refused_as_if_never_sent_of_each :
    let f : Function Unit :=
      { name := "f", run := fun _ _ => .await .all [{}] fun _ => .done (.output .null) }
    let other : Function Unit := { name := "f", run := fun _ _ => .done (.output .null) }
    let begin : Request := { function := "f", directive := .input .null }
    let resume (function : String) (state : Boxed) : Request :=
      { function, directive := .pollResult { results := [{ correlationId := 10 }], state } }
    let refusals : List (Command Unit × Answer Unit) := [
      (.run (resume "g" (.ofId 11)), .refused .notFound (.functionNotFound "g")),
      (.run (resume "f" ⟨.uint, [255]⟩),
        .refused .incompatibleState (.invalidState (.wire (.invalidTag 255)))),
      (.run (resume "f" (.ofId 12)), .refused .incompatibleState (.instanceNotFound 12)),
      (.register other, .registered (.error (.duplicateFunction "f")))]
    let origin : Host Unit := .fresh (.startingAt 10) "" .zero
    let before := [.register f, .run begin]
    ∀ command answer, (command, answer) ∈ refusals →
      (before.foldl execute origin).Refuses command answer ∧
      origin.answers (before ++ [command, .run (resume "f" (.ofId 11))]) =
        origin.answers before ++ [answer, .responded (.output .null) []] := by
  intro f other begin resume refusals origin before command answer hmem
  have hname : ∃ g ∈ (before.foldl execute origin).functions, g.name = "f" :=
    ⟨f, List.mem_singleton_self f, rfl⟩
  have hrefuses : (before.foldl execute origin).Refuses command answer := by
    simp only [refusals, List.mem_cons, Prod.mk.injEq, List.not_mem_nil, or_false] at hmem
    rcases hmem with ⟨rfl, rfl⟩ | ⟨rfl, rfl⟩ | ⟨rfl, rfl⟩ | ⟨rfl, rfl⟩
    · refine .function fun g hg => ?_
      obtain rfl := List.mem_singleton.1 hg
      decide
    · exact .state hname rfl rfl
    · exact .resident hname rfl (instanceId_ofId 12) (by decide)
    · exact .name hname
  refine ⟨hrefuses, ?_⟩
  obtain ⟨-, -, hafter, -⟩ :=
    refused_as_if_never_sent (.startingAt 10) "" .zero before command answer hrefuses
  rw [(hafter [.run (resume "f" (.ofId 11))]).1]
  rfl

end Host

end Resumable
