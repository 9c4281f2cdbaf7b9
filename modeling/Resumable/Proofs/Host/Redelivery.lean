import Resumable.Proofs.Execution.Underway
import Resumable.Proofs.Host.Routing

/-!
# Redelivery

A request that an execution has received is absorbed by it ever after: by the operation that received
it, since none of its results is pending any more, and by every later one, which waits for ids that
were drawn since (`absorbs_request`, `absorbs_step`). Delivered again, it changes nothing
(`Coherent.run_of_absorbs`), and what comes afterwards is the same as without it (`ending_foldl`).
-/

namespace Resumable

variable {ω : Type}

/-! ## Executions under way in a table -/

namespace Host

variable {host : Host ω} {f : Function ω} {request : Request} {input : Boxed} {id : UInt64}
  {e e' : ProcessExecution ω} {s : Process.Waiting ω}

/-- Whether every resident execution is under way. -/
def Attended (host : Host ω) : Prop :=
  ∀ id e, host.residents.find? id = some e → ∃ s, e.Underway host.maxWait s

/-- An execution that is entered in the table waits for the ids that it drew. -/
theorem underway_started (hexits : f.Exits) (hroute : host.route request = .start f input)
    (hpoll : (host.begun f request input).1.response.isExit = false) :
    ∃ s, (host.started f request input).Underway host.maxWait s ∧
      s.operation.pending.map (·.1) = host.given request := by
  have hprocess : (host.process f request input).Exits := hexits _ _
  rcases Process.run_moves host.maxWait hprocess host.shared with
    ⟨hexit, -⟩ | ⟨s, hstate, -, hunderway, hpending⟩
  · rw [begun, hexit] at hpoll
    cases hpoll
  · refine ⟨s, ⟨⟨host.process f request input, ?_⟩, hunderway⟩, ?_⟩
    · rw [started, begun, hstate]
    · rw [hpending, given_of_start hroute]

/-- An execution that is resumed and stays in the table waits for the same operation, which has
received the request, or for the ids that it drew. -/
theorem underway_resumed (hunderway : e.Underway host.maxWait s)
    (hroute : host.route request = .resume id e)
    (hfind : (host.run request).host.residents.find? id = some e') :
    ∃ s', e'.Underway host.maxWait s' ∧
      (s.operation.receive (some request) = .waiting s'.operation ∨
        s'.operation.pending.map (·.1) = host.given request) := by
  obtain ⟨result, -, -, hresident⟩ := directive_of_route_resume hroute
  obtain ⟨⟨p, rfl⟩, hwaiting⟩ := hunderway
  rw [run_of_resume hroute, Execution.resume_parked] at hfind
  change (if _ then _ else _ : Residents _).find? id = _ at hfind
  rcases Process.resume_cases host.maxWait hwaiting request host.shared with
    ⟨hexit, -⟩ | ⟨s', hstate, hpoll, hwaiting', hoperation⟩
  · -- an exit takes the execution out of the table
    rw [if_pos (by simpa [Reply.told, Process.body] using hexit), Residents.find?_erase_self] at hfind
    cases hfind
  · -- otherwise it is put back as it is left
    rw [if_neg (by simpa [Reply.told, Process.body] using hpoll),
      Residents.find?_replace_self hresident, Option.some.injEq] at hfind
    refine ⟨s', ⟨⟨p, ?_⟩, hwaiting'⟩, ?_⟩
    · rw [← hfind]
      exact congrArg (Execution.parked (Process.body host.maxWait p)) hstate
    · rw [given_of_resume hroute]
      exact hoperation

/-- What is resident after a request was resident before, or is under way with an operation that has
received the request or that waits for the ids just drawn. -/
theorem find?_run_cases (hfunctions : ∀ f ∈ host.functions, f.Exits) (hattended : host.Attended)
    (hfind : (host.run request).host.residents.find? id = some e) :
    host.residents.find? id = some e ∨
    ∃ s, e.Underway host.maxWait s ∧
      (s.operation.pending.map (·.1) = host.given request ∨
        ∃ before s', host.residents.find? id = some before ∧ before.Underway host.maxWait s' ∧
          s'.operation.receive (some request) = .waiting s.operation) := by
  cases hroute : host.route request with
  | start f input =>
    cases hexit : (host.begun f request input).1.response.isExit with
    | true =>
      rw [run_of_start_of_exit hroute hexit] at hfind
      exact Or.inl hfind
    | false =>
      rw [run_of_start_of_poll hroute hexit] at hfind
      -- what is found was there before, or has just been entered
      rcases Residents.find?_register_cases hfind with hfind | rfl
      · exact Or.inl hfind
      · obtain ⟨s, hunderway, hpending⟩ :=
          underway_started (hfunctions f (function_of_route hroute)) hroute hexit
        exact Or.inr ⟨s, hunderway, Or.inl hpending⟩
  | resume named before =>
    obtain ⟨result, -, -, hresident⟩ := directive_of_route_resume hroute
    by_cases hid : id = named
    · subst hid
      obtain ⟨s', hbefore⟩ := hattended id before hresident
      obtain ⟨s, hunderway, hreceived | hpending⟩ := underway_resumed hbefore hroute hfind
      · exact Or.inr ⟨s, hunderway, Or.inr ⟨before, s', hresident, hbefore, hreceived⟩⟩
      · exact Or.inr ⟨s, hunderway, Or.inl hpending⟩
    · -- another execution goes on, which leaves what is found in its place
      rw [run_of_resume hroute] at hfind
      change (if _ then _ else _ : Residents _).find? id = _ at hfind
      split at hfind
      · rw [Residents.find?_erase_of_ne hid] at hfind
        exact Or.inl hfind
      · rw [Residents.find?_replace_of_ne hid] at hfind
        exact Or.inl hfind
  | refused status error =>
    rw [run_of_refused hroute] at hfind
    exact Or.inl hfind

/-- A registration or a request keeps all residents under way, and closing leaves none. -/
theorem Attended.execute (h : host.Attended) (hfunctions : ∀ f ∈ host.functions, f.Exits)
    (command : Command ω) : (host.execute command).Attended := by
  cases command with
  | register f =>
    obtain ⟨functions, hhost⟩ := execute_register host f
    rw [hhost]
    exact h
  | close => exact fun id e hfind => nomatch hfind
  | run request =>
    intro id e hfind
    rw [Host.execute, run_maxWait]
    rcases find?_run_cases hfunctions h hfind with hfind | ⟨s, hunderway, -⟩
    · exact h id e hfind
    · exact ⟨s, hunderway⟩

end Host

namespace Host

/-- Whether what is resident under an id absorbs a request. -/
def Absorbs (host : Host ω) (id : UInt64) (request : Request) : Prop :=
  ∀ e s, host.residents.find? id = some e → e.Underway host.maxWait s →
    s.operation.Absorbs request

end Host

namespace Chronicle

variable {origin : Host ω} {c : Chronicle ω} {request : Request} {id : UInt64}
  {e : ProcessExecution ω} {s : Process.Waiting ω}

/-- As long as no id is drawn twice, a request with results for drawn ids is absorbed by an operation
that waits for ids drawn since. -/
theorem absorbs_of_given (hids : c.host.ids = origin.ids.after c.drawn) {other : Request}
    (hdrawn : c.drawn + c.host.calling other ≤ 2 ^ 64)
    (hresults : ∀ r ∈ request.delivered, r.correlationId ∈ (origin.ids.drawMany c.drawn).1)
    (hpending : s.operation.pending.map (·.1) = c.host.given other) :
    s.operation.Absorbs request := by
  have hnodup := origin.ids.nodup_drawMany hdrawn
  rw [Ids.drawMany_add, ← hids, List.nodup_append] at hnodup
  -- the ids drawn now are none of those drawn before
  obtain ⟨-, -, hdisjoint⟩ := hnodup
  intro r hr entry hentry heq
  have hmem : entry.1 ∈ c.host.given other := by
    rw [← hpending]
    exact List.mem_map_of_mem hentry
  exact hdisjoint r.correlationId (hresults r hr) entry.1 hmem heq.symm

/-- A request that an execution has received is absorbed by it from then on. -/
theorem absorbs_request (hids : c.host.ids = origin.ids.after c.drawn)
    (hattended : c.host.Attended)
    (hdrawn : (c.request request).drawn ≤ 2 ^ 64)
    (hresults : ∀ r ∈ request.delivered, r.correlationId ∈ (origin.ids.drawMany c.drawn).1)
    (hroute : c.host.route request = .resume id e) :
    (c.request request).host.Absorbs id request := by
  rw [drawn_request] at hdrawn
  rw [request_of_resume hroute]
  intro e' s' hfind hunderway'
  obtain ⟨result, -, -, hresident⟩ := Host.directive_of_route_resume hroute
  obtain ⟨s, hunderway⟩ := hattended id e hresident
  obtain ⟨s'', hunderway'', hoperation⟩ := Host.underway_resumed hunderway hroute hfind
  rw [Host.run_maxWait] at hunderway'
  obtain rfl := hunderway'.unique hunderway''
  rcases hoperation with hreceived | hpending
  · exact Operation.absorbs_of_receive hreceived
  · exact absorbs_of_given hids (by omega) hresults hpending

/-- No command ends the absorption of a request. -/
theorem absorbs_step (hids : c.host.ids = origin.ids.after c.drawn)
    (hfunctions : ∀ f ∈ c.host.functions, f.Exits) (hattended : c.host.Attended)
    (habsorbs : c.host.Absorbs id request) {command : Host.Command ω}
    (hdrawn : (c.step command).drawn ≤ 2 ^ 64)
    (hresults : ∀ r ∈ request.delivered, r.correlationId ∈ (origin.ids.drawMany c.drawn).1) :
    (c.step command).host.Absorbs id request := by
  rw [step_host]
  cases command with
  | register f =>
    obtain ⟨functions, hhost⟩ := c.host.execute_register f
    rw [hhost]
    exact habsorbs
  | close => exact fun e s hfind => nomatch hfind
  | run other =>
    change (c.request other).drawn ≤ 2 ^ 64 at hdrawn
    rw [drawn_request] at hdrawn
    intro e s hfind hunderway
    rw [Host.execute, Host.run_maxWait] at hunderway
    -- it is as before, or waits for ids drawn now, or has received one request more
    rcases Host.find?_run_cases hfunctions hattended hfind with
      hfind | ⟨s', hunderway', hpending | ⟨before, s'', hbefore, hwas, hreceived⟩⟩
    · exact habsorbs e s hfind hunderway
    · obtain rfl := hunderway.unique hunderway'
      exact absorbs_of_given hids (by omega) hresults hpending
    · obtain rfl := hunderway.unique hunderway'
      exact (habsorbs before s'' hbefore hwas).of_receive hreceived

/-- Between commands, every execution of a typed function is under way. -/
theorem attended_of_exits (ids : Ids) (endpoint : String) (maxWait : Span)
    (commands : List (Host.Command ω)) (hexits : ∀ f, .register f ∈ commands → f.Exits) :
    (of (.fresh ids endpoint maxWait) commands).host.Attended := by
  induction commands using List.reverseRecOn with
  | nil => exact fun id e hfind => nomatch hfind
  | append_singleton commands command ih =>
    have hbefore : ∀ f, .register f ∈ commands → f.Exits := fun f hf =>
      hexits f (List.mem_append_left _ hf)
    rw [of_append_singleton, step_host]
    apply (ih hbefore).execute
    intro f hf
    exact hbefore f (functions_subset ids endpoint maxWait commands f hf)

/-- A request that is absorbed where it is addressed to is refused, or answered by a poll without
calls; neither changes anything. -/
theorem Coherent.run_of_absorbs (h : Coherent origin c) {f : Function ω} {result : PollResult}
    (hlookup : c.host.lookup request.function = .ok f)
    (hdirective : request.directive = .pollResult result) (herror : result.error = none)
    (hstate : Host.instanceId result.state = .ok id) (hattended : c.host.Attended)
    (habsorbs : c.host.Absorbs id request) :
    (c.host.residents.find? id = none ∧
      c.host.run request = c.host.refuse .incompatibleState (.instanceNotFound id)) ∨
    ∃ e s, c.host.residents.find? id = some e ∧ e.Underway c.host.maxWait s ∧
      c.host.run request = ⟨.poll (s.poll.withState (.ofId id)), [], c.host⟩ := by
  have hroute := Host.route_of_pollResult hlookup hdirective hstate
  cases hfind : c.host.residents.find? id with
  | none =>
    rw [hfind] at hroute
    exact Or.inl ⟨rfl, Host.run_of_refused hroute⟩
  | some e =>
    rw [hfind] at hroute
    obtain ⟨s, hunderway⟩ := hattended id e hfind
    have hresume := hunderway.resume_absorbed hdirective herror (habsorbs e s hfind hunderway)
      c.host.shared
    refine Or.inr ⟨e, s, rfl, hunderway, ?_⟩
    -- the execution is put back where it was
    obtain ⟨life, hlife, hsuspended, hid, halone⟩ := h.exists_of_find? hfind
    obtain ⟨newer, older, hlives⟩ := List.append_of_mem hlife
    obtain ⟨-, hentries, hbefore, hafter⟩ := h.entries_around hlives hsuspended hid
    rw [halone] at hentries
    rw [Host.run_of_resume hroute, hresume]
    show Host.Outcome.mk _ _ { c.host with residents := c.host.residents.replace id e } = _
    rw [Residents.replace_eq_self hentries hbefore hafter]
    rfl

end Chronicle

/-! ## Exits -/

namespace Life

/-- The id of an execution and its exits. -/
def ending (life : Life ω) : Option UInt64 × List Response :=
  (life.id?, life.responses.filter Response.isExit)

theorem ending_resumed (life : Life ω) (r : Resumption) :
    (life.resumed r).ending =
      (life.ending.1, life.ending.2 ++ [r.response].filter Response.isExit) := by
  simp [ending]

/-- Entering a poll adds no exit. -/
theorem map_ending_enter_of_poll {id : UInt64} {r : Resumption} (h : r.response.isExit = false)
    (lives : List (Life ω)) : (enter id r lives).map ending = lives.map ending := by
  induction lives with
  | nil => rfl
  | cons life rest ih =>
    unfold enter
    split
    · rw [List.map_cons, List.map_cons, ending_resumed]
      simp [h]
    · rw [List.map_cons, List.map_cons, ih]

theorem map_ending_enter {lives lives' : List (Life ω)} (h : lives.map ending = lives'.map ending)
    (id : UInt64) (r : Resumption) :
    (enter id r lives).map ending = (enter id r lives').map ending := by
  induction lives generalizing lives' with
  | nil =>
    obtain rfl := List.map_eq_nil_iff.1 h.symm
    rfl
  | cons life rest ih =>
    cases lives' with
    | nil => cases h
    | cons life' rest' =>
      rw [List.map_cons, List.map_cons, List.cons.injEq] at h
      obtain ⟨hhead, hrest⟩ := h
      have hid : life.id? = life'.id? := congrArg Prod.fst hhead
      unfold enter
      rw [← hid]
      split
      · rw [List.map_cons, List.map_cons, ending_resumed, ending_resumed, hhead, hrest]
      · rw [List.map_cons, List.map_cons, hhead, ih hrest]

end Life

namespace Chronicle

variable {origin : Host ω} {c d : Chronicle ω}

/-- Where two chronicles of one host agree about exits, they agree about them after a command. -/
theorem ending_step (hhost : c.host = d.host)
    (hlives : c.lives.map Life.ending = d.lives.map Life.ending) (command : Host.Command ω) :
    (c.step command).host = (d.step command).host ∧
      (c.step command).lives.map Life.ending = (d.step command).lives.map Life.ending := by
  refine ⟨by rw [step_host, step_host, hhost], ?_⟩
  cases command with
  | register f => exact hlives
  | close =>
    show (c.lives.map Life.close).map Life.ending = (d.lives.map Life.close).map Life.ending
    rw [List.map_map, List.map_map]
    exact hlives
  | run request =>
    show (c.request request).lives.map Life.ending = (d.request request).lives.map Life.ending
    unfold Chronicle.request
    rw [hhost]
    cases d.host.route request with
    | start f input =>
      simp only [List.map_cons, hlives]
    | resume id e => exact Life.map_ending_enter hlives id _
    | refused status error => exact hlives

theorem ending_foldl (hhost : c.host = d.host)
    (hlives : c.lives.map Life.ending = d.lives.map Life.ending)
    (commands : List (Host.Command ω)) :
    (commands.foldl step c).host = (commands.foldl step d).host ∧
      (commands.foldl step c).lives.map Life.ending =
        (commands.foldl step d).lives.map Life.ending := by
  induction commands generalizing c d with
  | nil => exact ⟨hhost, hlives⟩
  | cons command rest ih =>
    obtain ⟨hhost, hlives⟩ := ending_step hhost hlives command
    exact ih hhost hlives

/-- A request that was accepted once is absorbed at any later time. -/
theorem absorbs_of_accepted (ids : Ids) (endpoint : String) (maxWait : Span)
    (before between : List (Host.Command ω)) {request : Request} {id : UInt64}
    {e : ProcessExecution ω}
    (hexits : ∀ f, .register f ∈ before ++ .run request :: between → f.Exits)
    (haccepted : (of (.fresh ids endpoint maxWait) before).host.route request = .resume id e)
    (hresults : ∀ r ∈ request.delivered,
      r.correlationId ∈ (ids.drawMany (of (.fresh ids endpoint maxWait) before).drawn).1)
    (hdrawn : (of (.fresh ids endpoint maxWait) (before ++ .run request :: between)).drawn ≤
      2 ^ 64) :
    (of (.fresh ids endpoint maxWait) (before ++ .run request :: between)).host.Absorbs id
      request := by
  -- on what comes in between: first the delivery itself, then one command after the other
  induction between using List.reverseRecOn with
  | nil =>
    rw [of_append_singleton] at hdrawn ⊢
    have hle := drawn_le_step (of (.fresh ids endpoint maxWait) before) (.run request)
    have hcoherent := (coherent_of_drawn ids endpoint maxWait before (Nat.le_trans hle hdrawn)).1
    have hattended := attended_of_exits ids endpoint maxWait before fun f hf =>
      hexits f (List.mem_append_left _ hf)
    exact absorbs_request hcoherent.ids hattended hdrawn hresults haccepted
  | append_singleton between command ih =>
    have hcommands : before ++ .run request :: (between ++ [command]) =
        (before ++ .run request :: between) ++ [command] := by simp
    rw [hcommands] at hexits
    rw [hcommands, of_append_singleton] at hdrawn ⊢
    have hexits' : ∀ f, .register f ∈ before ++ .run request :: between → f.Exits := fun f hf =>
      hexits f (List.mem_append_left _ hf)
    have hle := Nat.le_trans (drawn_le_step _ command) hdrawn
    have hcoherent := (coherent_of_drawn ids endpoint maxWait _ hle).1
    have hattended := attended_of_exits ids endpoint maxWait _ hexits'
    refine absorbs_step hcoherent.ids ?_ hattended (ih hexits' hle) hdrawn ?_
    · intro f hf
      exact hexits' f (functions_subset ids endpoint maxWait _ f hf)
    · intro r hr
      exact ids.drawMany_subset (drawn_mono (List.prefix_append _ _)) (hresults r hr)

/-- The function of a request that was accepted stays registered. -/
theorem lookup_of_route_resume {request : Request} {before : List (Host.Command ω)} {id : UInt64}
    {e : ProcessExecution ω} (h : (of origin before).host.route request = .resume id e)
    (after : List (Host.Command ω)) :
    ∃ f, (of origin (before ++ after)).host.lookup request.function = .ok f := by
  cases hlookup : (of origin before).host.lookup request.function with
  | error error =>
    rw [Host.route, hlookup] at h
    cases h
  | ok f =>
    rw [of_host] at hlookup
    rw [of_host, List.foldl_append]
    exact ⟨f, Host.lookup_foldl_execute hlookup after⟩

/-- A request that is refused or answered by a poll adds no exit to any life. -/
theorem ending_request_of_absorbed {f : Function ω} {request : Request} {result : PollResult}
    {id : UInt64} (hlookup : c.host.lookup request.function = .ok f)
    (hdirective : request.directive = .pollResult result)
    (hstate : Host.instanceId result.state = .ok id)
    (h : (c.host.residents.find? id = none ∧
        c.host.run request = c.host.refuse .incompatibleState (.instanceNotFound id)) ∨
      ∃ e s, c.host.residents.find? id = some e ∧ e.Underway c.host.maxWait s ∧
        c.host.run request = ⟨.poll (s.poll.withState (.ofId id)), [], c.host⟩) :
    (c.step (.run request)).lives.map Life.ending = c.lives.map Life.ending := by
  show (c.request request).lives.map Life.ending = _
  have hroute := Host.route_of_pollResult hlookup hdirective hstate
  rcases h with ⟨hfind, -⟩ | ⟨e, s, hfind, -, hpoll⟩
  · rw [hfind] at hroute
    rw [request_of_refused hroute]
  · rw [hfind] at hroute
    rw [request_of_resume hroute]
    apply Life.map_ending_enter_of_poll
    rw [hpoll]
    rfl

/-- A request that was accepted once, without an error and with results only for ids drawn before,
is harmless when it is delivered again, at any later time: it is refused, where the execution is gone,
or it is answered by a poll without calls for what the execution waits for. Either way it changes
nothing about the host, so that it does not matter for any later response or exit. -/
theorem redelivery_harmless (ids : Ids) (endpoint : String) (maxWait : Span)
    (before between : List (Host.Command ω)) (request : Request) (result : PollResult) (id : UInt64)
    (e : ProcessExecution ω)
    (htyped : ∀ f, .register f ∈ before ++ .run request :: between →
      ∃ (ι ο : Type) (typed : TypedFunction ω ι ο), f = typed.toFunction)
    (hdirective : request.directive = .pollResult result) (herror : result.error = none)
    (haccepted : (of (.fresh ids endpoint maxWait) before).host.route request = .resume id e)
    (hresults : ∀ r ∈ result.results,
      r.correlationId ∈ (ids.drawMany (of (.fresh ids endpoint maxWait) before).drawn).1)
    (hdrawn : (of (.fresh ids endpoint maxWait) (before ++ .run request :: between)).drawn <
      2 ^ 64) :
    let origin : Host ω := .fresh ids endpoint maxWait
    let history := before ++ .run request :: between
    let host := (of origin history).host
    let outcome := host.run request
    outcome.host = host ∧ outcome.notes = [] ∧
    ((host.residents.find? id = none ∧ outcome.response.isExit = true ∧
        outcome.response.status = .incompatibleState) ∨
      ∃ e s poll, host.residents.find? id = some e ∧ e.task = .waiting s ∧
        outcome.response = .poll poll ∧ poll.calls = [] ∧ Host.instanceId poll.state = .ok id ∧
        poll.minResults = s.operation.count ∧ poll.maxResults = s.operation.count ∧
        poll.maxWait = s.operation.maxWait) ∧
    -- whatever comes afterwards, the host and the exits are the same as without the redelivery
    ∀ after,
      (of origin (history ++ .run request :: after)).host = (of origin (history ++ after)).host ∧
      (of origin (history ++ .run request :: after)).lives.map Life.ending =
        (of origin (history ++ after)).lives.map Life.ending := by
  intro origin history host outcome
  have hexits : ∀ f, .register f ∈ history → f.Exits := by
    intro f hf
    obtain ⟨ι, ο, typed, rfl⟩ := htyped f hf
    exact typed.toFunction_exits
  have hdelivered : request.delivered = result.results := by
    simp [Request.delivered, hdirective, herror]
  have hcoherent := (coherent_of_drawn ids endpoint maxWait history (Nat.le_of_lt hdrawn)).1
  have hattended := attended_of_exits ids endpoint maxWait history hexits
  have habsorbs := absorbs_of_accepted ids endpoint maxWait before between hexits haccepted
    (by rwa [hdelivered]) (Nat.le_of_lt hdrawn)
  -- the request names the execution, by a function that is still registered
  obtain ⟨result', hdirective', hstate, -⟩ := Host.directive_of_route_resume haccepted
  obtain rfl : result' = result := by
    rw [hdirective] at hdirective'
    exact (Request.Directive.pollResult.inj hdirective').symm
  obtain ⟨f, hlookup⟩ := lookup_of_route_resume haccepted (.run request :: between)
  have hanswer := hcoherent.run_of_absorbs hlookup hdirective herror hstate hattended habsorbs
  have hlives := ending_request_of_absorbed hlookup hdirective hstate hanswer
  have hhost : outcome.host = host := by
    rcases hanswer with ⟨-, hrefused⟩ | ⟨_, _, -, -, hpoll⟩
    · exact congrArg Host.Outcome.host hrefused
    · exact congrArg Host.Outcome.host hpoll
  refine ⟨hhost, ?_, ?_, ?_⟩
  · rcases hanswer with ⟨-, hrefused⟩ | ⟨_, _, -, -, hpoll⟩
    · exact congrArg Host.Outcome.notes hrefused
    · exact congrArg Host.Outcome.notes hpoll
  · rcases hanswer with ⟨hgone, hrefused⟩ | ⟨e, s, hfind, hunderway, hpoll⟩
    · refine Or.inl ⟨hgone, ?_, ?_⟩
      · rw [show outcome = _ from hrefused]
        rfl
      · rw [show outcome = _ from hrefused]
        rfl
    · exact Or.inr ⟨e, s, s.poll.withState (.ofId id), hfind, hunderway.task_eq,
        congrArg Host.Outcome.response hpoll, rfl, Host.instanceId_ofId id, rfl, rfl, rfl⟩
  · intro after
    -- the redelivery is one step more, which leaves the host and the exits as they are
    have hagain : of origin (history ++ .run request :: after) =
        after.foldl step ((of origin history).step (.run request)) := by
      rw [of, List.foldl_append, List.foldl_cons]
      rfl
    have hwithout : of origin (history ++ after) = after.foldl step (of origin history) :=
      List.foldl_append
    rw [hagain, hwithout]
    refine ending_foldl ?_ hlives after
    rw [step_host]
    exact hhost

/-- A handler of two operations: the first request brings one of two results to the first operation,
the next one finishes it, and the first one is delivered again while the second operation is under
way. -/
theorem redelivery_harmless_to_later_operation :
    let typed : TypedFunction Unit Unit Unit :=
      { name := "f", input := .unit, output := fun _ => .unit
        handler := fun _ _ => .await .all [{}, {}] fun _ => .await .all [{}] fun _ => .done (.ok ()) }
    let resume (result : UInt64) : Request :=
      { function := "f"
        directive := .pollResult { results := [{ correlationId := result }], state := .ofId 12 } }
    let before := [.register typed.toFunction, .run { function := "f", directive := .input .null }]
    let history := before ++ .run (resume 11) :: [.run (resume 10)]
    let host := (of (.fresh (.startingAt 10) "" .zero) history).host
    let outcome := host.run (resume 11)
    (of (.fresh (.startingAt 10) "" .zero) history).drawn < 2 ^ 64 ∧
      ((of (.fresh (.startingAt 10) "" .zero) before).host.residents.find? 12).isSome = true ∧
      outcome.host = host ∧
      ∃ poll, outcome.response = .poll poll ∧ poll.calls = [] ∧
        Host.instanceId poll.state = .ok 12 := by
  intro typed resume before history host outcome
  have hdrawn : (of (.fresh (.startingAt 10) "" .zero) history).drawn < 2 ^ 64 := by decide
  have hresident :
      ((of (.fresh (.startingAt 10) "" .zero) before).host.residents.find? 12).isSome = true := by
    decide
  have hlookup : (of (.fresh (.startingAt 10) "" .zero) before).host.lookup (resume 11).function =
      .ok typed.toFunction := by
    rw [of_host]
    exact Host.lookup_foldl_execute (f := typed.toFunction) rfl [.run _]
  have hroute := Host.route_of_pollResult hlookup rfl (Host.instanceId_ofId 12)
  obtain ⟨e, hfind⟩ := Option.isSome_iff_exists.1 hresident
  rw [hfind] at hroute
  have htyped : ∀ f, .register f ∈ history →
      ∃ (ι ο : Type) (typed : TypedFunction Unit ι ο), f = typed.toFunction := by
    intro f hf
    exact ⟨Unit, Unit, typed, by simpa [history, before] using hf⟩
  obtain ⟨hhost, -, hanswer, -⟩ := redelivery_harmless (.startingAt 10) "" .zero before
    [.run (resume 10)] (resume 11) _ 12 e htyped rfl rfl hroute (by decide) hdrawn
  refine ⟨hdrawn, hresident, hhost, ?_⟩
  rcases hanswer with ⟨-, hexit, -⟩ | ⟨_, _, poll, -, -, hpoll, hcalls, hstate, -⟩
  · have hgoing : outcome.response.isExit = false := by decide
    rw [hgoing] at hexit
    cases hexit
  · exact ⟨poll, hpoll, hcalls, hstate⟩

end Chronicle

end Resumable
