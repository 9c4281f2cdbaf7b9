import Resumable.Proofs.Host.Residency

/-!
# Routing

A request that resumes is received by the one execution whose id it names, and by no other. What the
executions under an id have received, one execution after the other, is what was accepted for that id
(`Coherent.received_step`), and an execution is what it would be all by itself with what it received.
-/

namespace Resumable

variable {ω : Type} {origin : Host ω} {c : Chronicle ω}

/-- The instance id that a request to resume names. -/
def Request.addressee? (request : Request) : Option UInt64 :=
  match request.directive with
  | .input _ => none
  | .pollResult result => (Host.instanceId result.state).toOption

namespace Life

/-- The requests that have resumed the execution. -/
def received (life : Life ω) : List Request := life.resumptions.map (·.request)

/-- The requests that have resumed the executions under an id, the oldest execution first. -/
def receivedUnder (id : UInt64) : List (Life ω) → List Request
  | [] => []
  | life :: older => receivedUnder id older ++ if life.id? = some id then life.received else []

theorem receivedUnder_enter_self {id : UInt64} {lives : List (Life ω)}
    (h : ∃ life ∈ lives, life.id? = some id) (r : Resumption) :
    receivedUnder id (enter id r lives) = receivedUnder id lives ++ [r.request] := by
  induction lives with
  | nil =>
    obtain ⟨life, hlife, -⟩ := h
    cases hlife
  | cons life older ih =>
    unfold enter
    split
    · rename_i hid
      have hid' : (life.resumed r).id? = some id := hid
      rw [receivedUnder, receivedUnder, if_pos hid, if_pos hid', List.append_assoc]
      simp [received, resumed]
    · rename_i hid
      obtain ⟨other, hother, hid'⟩ := h
      rcases List.mem_cons.1 hother with rfl | hother
      · exact absurd hid' hid
      · rw [receivedUnder, receivedUnder, if_neg hid, ih ⟨other, hother, hid'⟩, List.append_nil,
          List.append_nil]

theorem receivedUnder_enter_of_ne {id other : UInt64} (h : other ≠ id) (r : Resumption)
    (lives : List (Life ω)) : receivedUnder other (enter id r lives) = receivedUnder other lives := by
  induction lives with
  | nil => rfl
  | cons life older ih =>
    unfold enter
    split
    · rename_i hid
      have hne : life.id? ≠ some other := by
        rw [hid]
        exact fun heq => h (Option.some.inj heq).symm
      have hne' : (life.resumed r).id? ≠ some other := hne
      rw [receivedUnder, receivedUnder, if_neg hne, if_neg hne']
    · rw [receivedUnder, receivedUnder, ih]

theorem receivedUnder_close (id : UInt64) (lives : List (Life ω)) :
    receivedUnder id (lives.map close) = receivedUnder id lives := by
  induction lives with
  | nil => rfl
  | cons life older ih =>
    rw [List.map_cons, receivedUnder, receivedUnder, ih]
    rfl

theorem receivedUnder_eq_nil {id : UInt64} {lives : List (Life ω)}
    (h : ∀ life ∈ lives, life.id? ≠ some id) : receivedUnder id lives = [] := by
  induction lives with
  | nil => rfl
  | cons life older ih =>
    rw [List.forall_mem_cons] at h
    rw [receivedUnder, if_neg h.1, ih h.2, List.append_nil]

/-- An id that belongs to one execution alone has received what that execution has. -/
theorem receivedUnder_of_nodup {id : UInt64} {lives : List (Life ω)} {life : Life ω}
    (hnodup : (lives.filterMap id?).Nodup) (hlife : life ∈ lives) (hid : life.id? = some id) :
    receivedUnder id lives = life.received := by
  induction lives with
  | nil => cases hlife
  | cons l older ih =>
    rcases List.mem_cons.1 hlife with rfl | hlife
    · rw [List.filterMap_cons_some hid, List.nodup_cons, List.mem_filterMap] at hnodup
      -- no older life has the id of this one
      have holder : ∀ l ∈ older, l.id? ≠ some id := fun l hl hid' => hnodup.1 ⟨l, hl, hid'⟩
      rw [receivedUnder, receivedUnder_eq_nil holder, if_pos hid, List.nil_append]
    · have hne : l.id? ≠ some id := by
        intro hid'
        rw [List.filterMap_cons_some hid', List.nodup_cons, List.mem_filterMap] at hnodup
        exact hnodup.1 ⟨life, hlife, hid⟩
      have hrest : (older.filterMap id?).Nodup :=
        ((List.sublist_cons_self l older).filterMap id?).nodup hnodup
      rw [receivedUnder, if_neg hne, ih hrest hlife, List.append_nil]

/-- What is entered changes no function. -/
theorem exists_of_mem_enter {id : UInt64} {r : Resumption} {lives : List (Life ω)} {life : Life ω}
    (h : life ∈ enter id r lives) : ∃ before ∈ lives, life.function = before.function := by
  induction lives with
  | nil => cases h
  | cons l rest ih =>
    unfold enter at h
    split at h
    · rcases List.mem_cons.1 h with rfl | h
      · exact ⟨l, List.mem_cons_self, rfl⟩
      · exact ⟨life, List.mem_cons_of_mem l h, rfl⟩
    · rcases List.mem_cons.1 h with rfl | h
      · exact ⟨life, List.mem_cons_self, rfl⟩
      · obtain ⟨before, hbefore, hfunction⟩ := ih h
        exact ⟨before, List.mem_cons_of_mem l hbefore, hfunction⟩

/-- An execution without an id has received nothing. -/
theorem Sound.received_eq_nil {life : Life ω} (h : life.Sound origin) (hid : life.id? = none) :
    life.received = [] := by
  -- its first response is an exit, and so is the last one
  have hexit : life.first.isExit = true := by
    by_contra hpoll
    obtain ⟨id, hid', -⟩ := h.addressed life.first List.mem_cons_self (by simpa using hpoll)
    rw [hid] at hid'
    cases hid'
  cases hresumptions : life.resumptions with
  | nil => rw [received, hresumptions, List.map_nil]
  | cons r rest =>
    have hpoll := h.ended life.first (by simp [responses, hresumptions])
    rw [hexit] at hpoll
    cases hpoll

end Life

namespace Host

variable {host : Host ω} {request : Request} {id : UInt64} {e : ProcessExecution ω}

theorem addressee?_of_route (h : host.route request = .resume id e) :
    request.addressee? = some id := by
  obtain ⟨result, hdirective, hid, -⟩ := directive_of_route_resume h
  simp only [Request.addressee?, hdirective, hid]
  rfl

theorem functions_register {f g : Function ω} (h : f ∈ (host.execute (.register g)).functions) :
    f ∈ host.functions ∨ f = g := by
  change f ∈ ((host.register g).toOption.getD host).functions at h
  unfold register at h
  split at h
  · exact Or.inl h
  · rcases List.mem_append.1 h with h | h
    · exact Or.inl h
    · exact Or.inr (List.mem_singleton.1 h)

theorem function_of_route {f : Function ω} {input : Boxed}
    (h : host.route request = .start f input) : f ∈ host.functions := by
  unfold route at h
  cases hlookup : host.lookup request.function with
  | error error =>
    rw [hlookup] at h
    cases h
  | ok g =>
    rw [hlookup] at h
    cases hdirective : request.directive with
    | input input =>
      simp only [hdirective, Route.start.injEq] at h
      obtain ⟨rfl, -⟩ := h
      exact List.mem_of_find?_eq_some (lookup_eq_ok_iff.1 hlookup)
    | pollResult result =>
      simp only [hdirective] at h
      split at h
      · cases h
      · split at h <;> cases h

/-- A request leaves what is resident under other ids than the one it names as it is. -/
theorem find?_run (hfind : host.residents.find? id = some e) (hother : request.addressee? ≠ some id) :
    (host.run request).host.residents.find? id = some e := by
  cases hroute : host.route request with
  | start f input =>
    cases hexit : (host.begun f request input).1.response.isExit with
    | true =>
      rw [run_of_start_of_exit hroute hexit]
      exact hfind
    | false =>
      rw [run_of_start_of_poll hroute hexit]
      exact Residents.find?_register hfind _ _
  | resume named e' =>
    have hne : id ≠ named := by
      rintro rfl
      exact hother (addressee?_of_route hroute)
    rw [run_of_resume hroute]
    -- the execution that goes on is put back or taken out under another id
    show (if _ then _ else _ : Residents _).find? id = _
    split
    · rw [Residents.find?_erase_of_ne hne, hfind]
    · rw [Residents.find?_replace_of_ne hne, hfind]
  | refused status error =>
    rw [run_of_refused hroute]
    exact hfind

end Host

namespace Chronicle

/-- Whether the executions under each id have received exactly what was accepted for it. -/
def Routed (c : Chronicle ω) : Prop :=
  ∀ id, Life.receivedUnder id c.lives = c.accepted.filter (·.addressee? == some id)

theorem Coherent.routed_step (h : Coherent origin c) (hrouted : c.Routed)
    (command : Host.Command ω) : (c.step command).Routed := by
  cases command with
  | register f => exact hrouted
  | close =>
    intro id
    exact (Life.receivedUnder_close id c.lives).trans (hrouted id)
  | run request =>
    show (c.request request).Routed
    intro id
    cases hroute : c.host.route request with
    | start f input =>
      rw [request_of_start hroute, Life.receivedUnder, hrouted id]
      simp [Life.received]
    | resume named e =>
      have haddressee := Host.addressee?_of_route hroute
      rw [request_of_resume hroute, List.filter_append]
      by_cases hid : id = named
      · -- the request goes to the execution that it names
        subst hid
        obtain ⟨result, -, -, hfind⟩ := Host.directive_of_route_resume hroute
        obtain ⟨life, hlife, -, hid, -⟩ := h.exists_of_find? hfind
        rw [Life.receivedUnder_enter_self ⟨life, hlife, hid⟩, hrouted id]
        simp [haddressee]
      · -- for any other id nothing is accepted and nothing received
        have hne : (some named == some id) = false := beq_false_of_ne fun heq =>
          hid (Option.some.inj heq).symm
        rw [Life.receivedUnder_enter_of_ne hid, hrouted id]
        simp [haddressee, hne]
    | refused status error =>
      rw [request_of_refused hroute]
      exact hrouted id

theorem routed_of_room (ids : Ids) (endpoint : String) (maxWait : Span)
    (commands : List (Host.Command ω))
    (hroom : ∀ before, before <+: commands →
      (of (.fresh ids endpoint maxWait) before).host.resident < 2 ^ 64) :
    (of (.fresh ids endpoint maxWait) commands).Routed := by
  induction commands using List.reverseRecOn with
  | nil => exact fun _ => rfl
  | append_singleton commands command ih =>
    have hprefix := List.prefix_append commands [command]
    have hbefore := fun before hbefore => hroom before (List.IsPrefix.trans hbefore hprefix)
    rw [of_append_singleton]
    exact (coherent_of_room ids endpoint maxWait commands hbefore).routed_step (ih hbefore) command

/-! ## Functions -/

theorem functions_subset (ids : Ids) (endpoint : String) (maxWait : Span)
    (commands : List (Host.Command ω)) :
    ∀ f ∈ (of (.fresh ids endpoint maxWait) commands).host.functions, .register f ∈ commands := by
  induction commands using List.reverseRecOn with
  | nil => exact fun f hf => nomatch hf
  | append_singleton commands command ih =>
    intro f hf
    rw [of_append_singleton, step_host] at hf
    rw [List.mem_append]
    cases command with
    | register g =>
      rcases Host.functions_register hf with hf | rfl
      · exact Or.inl (ih f hf)
      · exact Or.inr List.mem_cons_self
    | run request =>
      rw [Host.execute, Host.run_functions] at hf
      exact Or.inl (ih f hf)
    | close => exact Or.inl (ih f hf)

/-- Executions are of registered functions. -/
theorem registered_of_mem_lives (ids : Ids) (endpoint : String) (maxWait : Span)
    (commands : List (Host.Command ω)) :
    ∀ life ∈ (of (.fresh ids endpoint maxWait) commands).lives,
      .register life.function ∈ commands := by
  induction commands using List.reverseRecOn with
  | nil => exact fun life hlife => nomatch hlife
  | append_singleton commands command ih =>
    intro life hlife
    rw [of_append_singleton] at hlife
    rw [List.mem_append]
    left
    cases command with
    | register g => exact ih life hlife
    | close =>
      obtain ⟨before, hbefore, rfl⟩ := List.mem_map.1 hlife
      exact ih before hbefore
    | run request =>
      change life ∈ ((of (.fresh ids endpoint maxWait) commands).request request).lives at hlife
      cases hroute : (of (.fresh ids endpoint maxWait) commands).host.route request with
      | start f input =>
        rw [request_of_start hroute] at hlife
        rcases List.mem_cons.1 hlife with rfl | hlife
        · exact functions_subset ids endpoint maxWait commands f (Host.function_of_route hroute)
        · exact ih life hlife
      | resume id e =>
        rw [request_of_resume hroute] at hlife
        obtain ⟨before, hbefore, hfunction⟩ := Life.exists_of_mem_enter hlife
        rw [hfunction]
        exact ih before hbefore
      | refused status error =>
        rw [request_of_refused hroute] at hlife
        exact ih life hlife

/-- Each execution receives exactly the accepted requests that name its id, each once and in their
order, and goes on only by what it receives: a request leaves all other residents as they are, and
two executions of a function in two runs that are started by the same request, receive the same
requests and are given the same ids respond the same, whatever else the runs are about. Where ids
come round again, several executions had the same one, and each received what came in its time.

A host looks for an id that is free and finds none once 2^64 executions are resident. -/
theorem routing_without_interference (endpoint : String) (maxWait : Span) (ids ids' : Ids)
    (commands commands' : List (Host.Command ω))
    (hroom : ∀ before, before <+: commands →
      (of (.fresh ids endpoint maxWait) before).host.resident < 2 ^ 64)
    (hroom' : ∀ before, before <+: commands' →
      (of (.fresh ids' endpoint maxWait) before).host.resident < 2 ^ 64) :
    let origin : Host ω := .fresh ids endpoint maxWait
    let c := of origin commands
    let c' := of (.fresh ids' endpoint maxWait) commands'
    -- what is received
    (∀ id, Life.receivedUnder id c.lives = c.accepted.filter (·.addressee? == some id)) ∧
    (c.drawn ≤ 2 ^ 64 → ∀ life ∈ c.lives, ∀ id, life.id? = some id →
      life.received = c.accepted.filter (·.addressee? == some id)) ∧
    (∀ life ∈ c.lives, life.id? = none → life.received = []) ∧
    -- what comes of it: the responses, and the execution that is left in the table
    (∀ life ∈ c.lives, life.responses = (life.alone origin).1 ∧
      (life.suspended = true → ∀ id, life.id? = some id →
        c.host.residents.find? id = some (life.alone origin).2)) ∧
    -- other residents
    (∀ request id e, c.host.residents.find? id = some e → request.addressee? ≠ some id →
      (c.host.run request).host.residents.find? id = some e) ∧
    -- two runs
    ∀ life ∈ c.lives, ∀ life' ∈ c'.lives, life'.function = life.function →
      life'.request = life.request → life'.given = life.given → life'.id? = life.id? →
      life'.asked = life.asked → life'.responses = life.responses := by
  intro origin c c'
  have hcoherent := coherent_of_room ids endpoint maxWait commands hroom
  have hcoherent' := coherent_of_room ids' endpoint maxWait commands' hroom'
  have hrouted := routed_of_room ids endpoint maxWait commands hroom
  refine ⟨hrouted, ?_, ?_, ?_, ?_, ?_⟩
  · intro hdrawn life hlife id hid
    have hsublist := (coherent_of_drawn ids endpoint maxWait commands hdrawn).2
    have hnodup : (c.lives.filterMap Life.id?).Nodup :=
      List.nodup_reverse.1 (hsublist.nodup (ids.nodup_drawMany hdrawn))
    rw [← hrouted id, Life.receivedUnder_of_nodup hnodup hlife hid]
  · exact fun life hlife hid => (hcoherent.sound life hlife).received_eq_nil hid
  · intro life hlife
    refine ⟨(hcoherent.sound life hlife).responses_eq, fun hsuspended id hid => ?_⟩
    exact hcoherent.find?_of_suspended hlife hsuspended hid
  · exact fun request id e hfind hother => Host.find?_run hfind hother
  · intro life hlife life' hlife' hfunction hrequest hgiven hid hasked
    rw [(hcoherent.sound life hlife).responses_eq, (hcoherent'.sound life' hlife').responses_eq]
    have hsame : (Host.fresh ids' endpoint maxWait : Host ω).alone = origin.alone :=
      Host.alone_congr rfl rfl
    simp only [Life.alone, hfunction, hrequest, hgiven, hid, hasked, hsame]
    rfl

/-- One execution of a function that awaits twice, alone and after another one that exits meanwhile;
it is given the ids 10 to 12 in both runs. -/
theorem routing_without_interference_of_two :
    let f : Function Unit :=
      { name := "f"
        run := fun _ _ => .await .all [{}] fun _ => .await .all [{}] fun _ => .done (.output .null) }
    let begin : Request := { function := "f", directive := .input .null }
    let resume (result id : UInt64) : Request :=
      { function := "f"
        directive := .pollResult { results := [{ correlationId := result }], state := .ofId id } }
    let commands := [.register f, .run begin, .run (resume 10 11)]
    let commands' :=
      [.register f, .run begin, .run begin, .run (resume 10 11), .run (resume 8 9),
        .run (resume 13 9)]
    let c := of (.fresh (.startingAt 10) "" .zero) commands
    let c' := of (.fresh (.startingAt 8) "" .zero) commands'
    (∀ before, before <+: commands →
      (of (.fresh (.startingAt 10) "" .zero) before).host.resident < 2 ^ 64) ∧
    (∀ before, before <+: commands' →
      (of (.fresh (.startingAt 8) "" .zero) before).host.resident < 2 ^ 64) ∧
    Life.receivedUnder 9 c'.lives = [resume 8 9, resume 13 9] ∧
    ∃ life ∈ c.lives, ∃ life' ∈ c'.lives, life.id? = some 11 ∧ life.responses.length = 2 ∧
      life'.id? = some 11 ∧ life'.responses = life.responses := by
  intro f begin resume commands commands' c c'
  have hroom : ∀ before, before <+: commands →
      (of (.fresh (.startingAt 10) "" .zero) before).host.resident < 2 ^ 64 :=
    room_of_drawn (by decide)
  have hroom' : ∀ before, before <+: commands' →
      (of (.fresh (.startingAt 8) "" .zero) before).host.resident < 2 ^ 64 :=
    room_of_drawn (by decide)
  obtain ⟨life, hlife, hid, hlength, life', hlife', hid', hrequest, hgiven, hasked⟩ :
      ∃ life ∈ c.lives, life.id? = some 11 ∧ life.responses.length = 2 ∧
        ∃ life' ∈ c'.lives, life'.id? = some 11 ∧ life'.request = life.request ∧
          life'.given = life.given ∧ life'.asked = life.asked := by decide
  -- both are executions of the one function that is registered
  have hfunction : life.function = f := by
    simpa [commands] using registered_of_mem_lives (.startingAt 10) "" .zero commands life hlife
  have hfunction' : life'.function = f := by
    simpa [commands'] using registered_of_mem_lives (.startingAt 8) "" .zero commands' life' hlife'
  obtain ⟨hreceived, -⟩ := routing_without_interference "" .zero (.startingAt 8) (.startingAt 10)
    commands' commands hroom' hroom
  obtain ⟨-, -, -, -, -, htwo⟩ := routing_without_interference "" .zero (.startingAt 10)
    (.startingAt 8) commands commands' hroom hroom'
  refine ⟨hroom, hroom', (hreceived 9).trans (by decide), life, hlife, life', hlife', hid, hlength,
    hid', ?_⟩
  exact htwo life hlife life' hlife' (hfunction'.trans hfunction.symm) hrequest hgiven
    (hid'.trans hid.symm) hasked

end Chronicle

end Resumable
