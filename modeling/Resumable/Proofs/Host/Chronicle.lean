import Resumable.Proofs.Host.Lives

/-!
# Coherence of chronicles

A chronicle is `Coherent` if each life is what the execution would have done by itself, and the table
holds the suspended ones, each as it would be left by itself. One command keeps a chronicle coherent
(`Coherent.step`), by a lemma for each thing that a command can come to; and so it is coherent after
any number of commands as long as there was room in the table (`coherent_of_room`).
-/

namespace Resumable

variable {ω : Type} {origin host : Host ω}

/-! ## An execution by itself -/

namespace Host

variable {f : Function ω} {request : Request} {given : List UInt64} {input : Boxed} {id : UInt64}

/-- What a function does by itself depends on its host through the endpoint and the longest wait. -/
theorem alone_congr (hendpoint : host.endpoint = origin.endpoint)
    (hmaxWait : host.maxWait = origin.maxWait) : host.alone = origin.alone := by
  funext f request given id asked
  simp only [alone, spawn, hendpoint, hmaxWait]

theorem alone_nil (f : Function ω) (request : Request) (given : List UInt64) (id : UInt64) :
    host.alone f request given id [] =
      let p := host.process f request request.startInput
      let move := (p.run host.maxWait (.giving given)).1
      ([move.response.addressed id], .parked (Process.body host.maxWait p) move.state?) := by
  simp only [alone, spawn, Execution.next_spawn]
  rfl

theorem alone_append_singleton (f : Function ω) (request : Request) (given : List UInt64)
    (id : UInt64) (asked : List (Request × List UInt64)) (more : Request × List UInt64) :
    host.alone f request given id (asked ++ [more]) =
      aloneResume id (host.alone f request given id asked) more :=
  List.foldl_concat _ _ _ _

/-- An execution by itself is parked whenever it has responded. -/
theorem alone_parked (f : Function ω) (request : Request) (given : List UInt64) (id : UInt64)
    (asked : List (Request × List UInt64)) :
    ∃ s?, (host.alone f request given id asked).2 =
      .parked (Process.body host.maxWait (host.process f request request.startInput)) s? := by
  induction asked using List.reverseRecOn with
  | nil => exact ⟨_, by rw [alone_nil]⟩
  | append_singleton asked more ih =>
    obtain ⟨s?, hparked⟩ := ih
    rw [alone_append_singleton, aloneResume, hparked]
    -- an execution that has exited stays parked, with nothing to wait for
    cases s? with
    | none => exact ⟨none, rfl⟩
    | some s => exact ⟨_, by rw [Execution.resume_parked]⟩

end Host

/-! ## Sound lives -/

/-- The poll of an execution that is told its id is told apart by it. -/
theorem Reply.instanceId?_told {reply : Reply} {id : UInt64} (h : (reply.told id).isExit = false) :
    (reply.told id).instanceId? = some id := by
  cases reply with
  | response r => exact Response.instanceId?_addressed (by simpa [told] using h) id
  | detached => cases h
  | blocked => cases h

namespace Life

variable {life : Life ω} {id : UInt64} {request : Request} {given : List UInt64} {reply : Reply}
  {e : ProcessExecution ω} {w : Shared ω}

@[simp] theorem id?_resumed (life : Life ω) (r : Resumption) : (life.resumed r).id? = life.id? := rfl

@[simp] theorem responses_resumed (life : Life ω) (r : Resumption) :
    (life.resumed r).responses = life.responses ++ [r.response] := by
  simp [responses, resumed]

@[simp] theorem latest_resumed (life : Life ω) (r : Resumption) :
    (life.resumed r).latest = r.response := by
  simp [latest]

theorem responses_eq_concat (life : Life ω) :
    life.responses = life.responses.dropLast ++ [life.latest] :=
  (List.dropLast_append_getLast _).symm

theorem latest_mem (life : Life ω) : life.latest ∈ life.responses := List.getLast_mem _

theorem alone_resumed (life : Life ω) (r : Resumption) :
    (life.resumed r).alone origin =
      Host.aloneResume (life.id?.getD 0) (life.alone origin) (r.request, r.given) := by
  simp only [alone, asked, resumed, List.map_append, List.map_cons, List.map_nil]
  exact Host.alone_append_singleton _ _ _ _ _ _

theorem suspended_iff : life.suspended = true ↔ life.closed = false ∧ life.latest.isExit = false := by
  simp [suspended]

/-- A suspended life stands in the table under its id. -/
theorem Sound.resident?_of_suspended (h : life.Sound origin) (hsuspended : life.suspended = true) :
    ∃ id, life.id? = some id ∧ life.resident? origin = some (id, (life.alone origin).2) := by
  obtain ⟨id, hid, hlatest⟩ := h.addressed _ life.latest_mem (suspended_iff.1 hsuspended).2
  refine ⟨id, hid, ?_⟩
  simp [resident?, hsuspended, hlatest]

theorem resident?_of_isExit (h : life.latest.isExit = true) : life.resident? origin = none := by
  simp [resident?, suspended, h]

theorem suspended_of_resident? {entry : UInt64 × ProcessExecution ω}
    (h : life.resident? origin = some entry) : life.suspended = true := by
  unfold resident? at h
  split at h
  · assumption
  · cases h

/-- A sound life stays sound if the execution goes on as it would by itself. -/
theorem Sound.resumed (h : life.Sound origin) (hgoing : life.latest.isExit = false)
    (hid : life.id? = some id)
    (hstep : (life.alone origin).2.resume request (.giving given) = (reply, e, w)) :
    (life.resumed ⟨request, given, reply.told id⟩).Sound origin := by
  constructor
  · rw [responses_resumed, alone_resumed, h.responses_eq, hid, Host.aloneResume, hstep]
    rfl
  · intro r hr hpoll
    rw [responses_resumed, List.mem_append, List.mem_singleton] at hr
    rcases hr with hr | rfl
    · exact h.addressed r hr hpoll
    · exact ⟨id, hid, Reply.instanceId?_told hpoll⟩
  · -- the response before the last one was a poll, and those before it were too
    intro r hr
    rw [responses_resumed, List.dropLast_concat] at hr
    rw [responses_eq_concat, List.mem_append, List.mem_singleton] at hr
    rcases hr with hr | rfl
    · exact h.ended r hr
    · exact hgoing

/-- A life is sound from its first response on if that is what its function would give by itself. -/
theorem Sound.begun {f : Function ω} {request : Request} {given : List UInt64} {first : Response}
    (halone : (origin.alone f request given (first.instanceId?.getD 0) []).1 = [first])
    (hfirst : first.isExit = false → ∃ id, first.instanceId? = some id) :
    (⟨f, request, given, first, [], false⟩ : Life ω).Sound origin := by
  constructor
  · exact halone.symm
  · intro r hr hpoll
    obtain rfl := List.mem_singleton.1 hr
    obtain ⟨id, hid⟩ := hfirst hpoll
    exact ⟨id, hid, hid⟩
  · intro r hr
    cases hr

/-- An execution that goes on stays in the table as it is left, unless it exits. -/
theorem resident?_resumed (hopen : life.closed = false)
    (hstep : (life.alone origin).2.resume request (.giving given) = (reply, e, w)) :
    (life.resumed ⟨request, given, reply.told id⟩).resident? origin =
      if (reply.told id).isExit then none else some (id, e) := by
  have hclosed : ∀ r, (life.resumed r).closed = false := fun _ => hopen
  cases hexit : (reply.told id).isExit with
  | true => simp [resident?, suspended, hexit]
  | false =>
    have hlatest := Reply.instanceId?_told hexit
    simp [resident?, suspended, hexit, hlatest, hclosed, alone_resumed, Host.aloneResume, hstep]

/-- A resumption is entered in the latest life under its id. -/
theorem enter_eq {newer older : List (Life ω)} (hnewer : ∀ l ∈ newer, l.id? ≠ some id)
    (hid : life.id? = some id) (r : Resumption) :
    enter id r (newer ++ life :: older) = newer ++ life.resumed r :: older := by
  induction newer with
  | nil => exact if_pos hid
  | cons l newer ih =>
    rw [List.forall_mem_cons] at hnewer
    rw [List.cons_append, enter, if_neg hnewer.1, ih hnewer.2, List.cons_append]

end Life

namespace Host

variable {f : Function ω} {request : Request} {input : Boxed} {id : UInt64} {e : ProcessExecution ω}

theorem directive_of_route_start (h : host.route request = .start f input) :
    request.directive = .input input := by
  unfold route at h
  split at h
  · cases h
  · split at h
    · rename_i hdirective
      cases h
      exact hdirective
    · split at h
      · cases h
      · split at h <;> cases h

theorem startInput_of_route_start (h : host.route request = .start f input) :
    request.startInput = input := by
  rw [Request.startInput, directive_of_route_start h]

/-- A request that goes to a resident execution names it by its state. -/
theorem directive_of_route_resume (h : host.route request = .resume id e) :
    ∃ result, request.directive = .pollResult result ∧ instanceId result.state = .ok id ∧
      host.residents.find? id = some e := by
  unfold route at h
  split at h
  · cases h
  · split at h
    · cases h
    · rename_i result hdirective
      split at h
      · cases h
      · rename_i hid
        split at h
        · cases h
        · rename_i hfind
          cases h
          exact ⟨result, hdirective, hid, hfind⟩

/-- A new execution begins as it would by itself. -/
theorem alone_begun (h : host.route request = .start f input) (id : UInt64) :
    host.alone f request (host.given request) id [] =
      ([(host.begun f request input).1.response.addressed id], host.started f request input) := by
  rw [alone_nil, startInput_of_route_start h, given_of_start h]
  simp only [Process.run_giving]
  rfl

/-- To enter an execution in the table, an id is drawn. -/
theorem entering_pos (h : host.route request = .start f input)
    (hpoll : (host.begun f request input).1.response.isExit = false) :
    0 < host.entering request := by
  simp only [entering, h, hpoll, Bool.false_eq_true, if_false]
  exact Ids.drawsFree_pos _ _ _

/-- An execution goes on as it would by itself. -/
theorem resume_alone (h : host.route request = .resume id e) {p : Process ω Response}
    {s? : Option (Process.Waiting ω)} (he : e = .parked (Process.body host.maxWait p) s?) :
    ∃ w, e.resume request (.giving (host.given request)) =
      ((e.resume request host.shared).1, (e.resume request host.shared).2.1, w) := by
  obtain ⟨hreply, hleft⟩ :
      (e.resume request (.giving (host.given request))).1 = (e.resume request host.shared).1 ∧
        (e.resume request (.giving (host.given request))).2.1 =
          (e.resume request host.shared).2.1 := by
    rw [given_of_resume h, he]
    exact Execution.resume_giving s? request host.shared
  exact ⟨(e.resume request (.giving (host.given request))).2.2, by rw [← hreply, ← hleft]⟩

end Host

/-! ## Coherence -/

namespace Chronicle

variable {c : Chronicle ω} {f : Function ω} {request : Request} {input : Boxed} {id : UInt64}
  {e : ProcessExecution ω}

/-- A chronicle that agrees with its host: the lives are sound, and the entries of the table are
those of the suspended lives, the oldest first. -/
structure Coherent (origin : Host ω) (c : Chronicle ω) : Prop where
  endpoint : c.host.endpoint = origin.endpoint
  maxWait : c.host.maxWait = origin.maxWait
  ids : c.host.ids = origin.ids.after c.drawn
  entries : c.host.residents.entries = (c.lives.filterMap (Life.resident? origin)).reverse
  sound : ∀ life ∈ c.lives, life.Sound origin
  /-- No life has the id of a suspended one that is older. -/
  fresh : c.lives.Pairwise fun newer older => older.suspended = true → newer.id? ≠ older.id?

theorem Coherent.alone_eq (h : Coherent origin c) : c.host.alone = origin.alone :=
  Host.alone_congr h.endpoint h.maxWait

/-- The id of an entry is that of the life which the entry is for. -/
theorem id?_of_resident? {life : Life ω} (hsound : life.Sound origin)
    (hentry : life.resident? origin = some (id, e)) :
    life.id? = some id ∧ (life.alone origin).2 = e := by
  obtain ⟨id', hid, hentry'⟩ := hsound.resident?_of_suspended (Life.suspended_of_resident? hentry)
  rw [hentry', Option.some.injEq, Prod.mk.injEq] at hentry
  obtain ⟨rfl, rfl⟩ := hentry
  exact ⟨hid, rfl⟩

/-- The ids in use are those of the suspended lives. -/
theorem Coherent.mem_keys_iff (h : Coherent origin c) :
    id ∈ c.host.residents.keys ↔ ∃ life ∈ c.lives, life.suspended = true ∧ life.id? = some id := by
  rw [Residents.keys, h.entries, List.map_reverse, List.mem_reverse, List.mem_map]
  constructor
  · rintro ⟨⟨id', e⟩, hentry, rfl⟩
    obtain ⟨life, hlife, hentry⟩ := List.mem_filterMap.1 hentry
    obtain ⟨hid, -⟩ := id?_of_resident? (h.sound life hlife) hentry
    exact ⟨life, hlife, Life.suspended_of_resident? hentry, hid⟩
  · rintro ⟨life, hlife, hsuspended, hid⟩
    obtain ⟨id', hid', hentry⟩ := (h.sound life hlife).resident?_of_suspended hsuspended
    rw [hid, Option.some.injEq] at hid'
    exact ⟨_, List.mem_filterMap.2 ⟨life, hlife, hentry⟩, hid'.symm⟩

/-- The entries around that of a suspended life, and the lives before it, have other ids. -/
theorem Coherent.entries_around (h : Coherent origin c) {newer older : List (Life ω)}
    {life : Life ω} (hlives : c.lives = newer ++ life :: older)
    (hsuspended : life.suspended = true) (hid : life.id? = some id) :
    (∀ l ∈ newer, l.id? ≠ some id) ∧
      c.host.residents.entries = (older.filterMap (Life.resident? origin)).reverse ++
        (id, (life.alone origin).2) :: (newer.filterMap (Life.resident? origin)).reverse ∧
      (∀ entry ∈ (older.filterMap (Life.resident? origin)).reverse, entry.1 ≠ id) ∧
      ∀ entry ∈ (newer.filterMap (Life.resident? origin)).reverse, entry.1 ≠ id := by
  obtain ⟨id', hid', hentry⟩ := (h.sound life (by simp [hlives])).resident?_of_suspended hsuspended
  rw [hid, Option.some.injEq] at hid'
  subst hid'
  have hfresh := h.fresh
  rw [hlives, List.pairwise_append, List.pairwise_cons] at hfresh
  obtain ⟨-, ⟨holder, -⟩, hnewer⟩ := hfresh
  have hnewer : ∀ l ∈ newer, l.id? ≠ some id := by
    intro l hl
    rw [← hid]
    exact hnewer l hl life List.mem_cons_self hsuspended
  refine ⟨hnewer, ?_, ?_, ?_⟩
  · rw [h.entries, hlives, List.filterMap_append, List.filterMap_cons_some hentry,
      List.reverse_append, List.reverse_cons, List.append_assoc, List.singleton_append]
  · rintro ⟨id', e'⟩ hentry' rfl
    obtain ⟨l, hl, hentry'⟩ := List.mem_filterMap.1 (List.mem_reverse.1 hentry')
    have hsound := h.sound l (by simp [hlives, hl])
    -- an older life under this id would be suspended beside this one
    refine holder l hl (Life.suspended_of_resident? hentry') ?_
    rw [hid, (id?_of_resident? hsound hentry').1]
  · rintro ⟨id', e'⟩ hentry' rfl
    obtain ⟨l, hl, hentry'⟩ := List.mem_filterMap.1 (List.mem_reverse.1 hentry')
    have hsound := h.sound l (by simp [hlives, hl])
    exact hnewer l hl (id?_of_resident? hsound hentry').1

/-- What is resident under an id is a suspended execution, as it would be by itself. -/
theorem Coherent.exists_of_find? (h : Coherent origin c)
    (hfind : c.host.residents.find? id = some e) :
    ∃ life ∈ c.lives, life.suspended = true ∧ life.id? = some id ∧ (life.alone origin).2 = e := by
  have hmem := Residents.mem_of_find? hfind
  rw [h.entries, List.mem_reverse, List.mem_filterMap] at hmem
  obtain ⟨life, hlife, hentry⟩ := hmem
  obtain ⟨hid, halone⟩ := id?_of_resident? (h.sound life hlife) hentry
  exact ⟨life, hlife, Life.suspended_of_resident? hentry, hid, halone⟩

/-- A suspended execution is resident under its id, as it would be by itself. -/
theorem Coherent.find?_of_suspended (h : Coherent origin c) {life : Life ω}
    (hlife : life ∈ c.lives) (hsuspended : life.suspended = true) (hid : life.id? = some id) :
    c.host.residents.find? id = some (life.alone origin).2 := by
  obtain ⟨newer, older, hlives⟩ := List.append_of_mem hlife
  obtain ⟨-, hentries, hbefore, -⟩ := h.entries_around hlives hsuspended hid
  exact Residents.find?_of_entries hentries hbefore

/-! ## One command -/

theorem Coherent.register (h : Coherent origin c) (f : Function ω) :
    Coherent origin (c.step (.register f)) := by
  obtain ⟨functions, hhost⟩ :
      ∃ functions, (c.step (.register f)).host = { c.host with functions } :=
    c.host.execute_register f
  constructor
  · rw [hhost]
    exact h.endpoint
  · rw [hhost]
    exact h.maxWait
  · rw [hhost]
    exact h.ids
  · rw [hhost]
    exact h.entries
  · exact h.sound
  · exact h.fresh

theorem Coherent.close (h : Coherent origin c) : Coherent origin (c.step .close) := by
  -- a closed life is not suspended, so that no entry is expected for it
  have hsuspended : ∀ life : Life ω, life.close.suspended = false := fun _ => rfl
  have hentry : ∀ life : Life ω, life.close.resident? origin = none := fun _ => rfl
  refine ⟨h.endpoint, h.maxWait, h.ids, ?_, ?_, ?_⟩
  · have hnone : (c.lives.map Life.close).filterMap (Life.resident? origin) = [] := by
      rw [List.filterMap_map]
      exact List.filterMap_eq_nil_iff.2 fun life _ => hentry life
    show [] = ((c.lives.map Life.close).filterMap (Life.resident? origin)).reverse
    rw [hnone, List.reverse_nil]
  · intro life hlife
    obtain ⟨before, hbefore, rfl⟩ : ∃ before ∈ c.lives, before.close = life := List.mem_map.1 hlife
    obtain ⟨hresponses, haddressed, hended⟩ := h.sound before hbefore
    exact ⟨hresponses, haddressed, hended⟩
  · refine List.pairwise_map.2 (List.pairwise_of_forall ?_)
    intro newer older hsuspends
    rw [hsuspended] at hsuspends
    cases hsuspends

/-- A refused request changes nothing. -/
theorem request_of_refused {status : Status} {error : HostError}
    (hroute : c.host.route request = .refused status error) : c.request request = c := by
  simp [Chronicle.request, hroute, Host.run_of_refused hroute, Host.refuse, Host.calling,
    Host.entering]

theorem request_of_start (hroute : c.host.route request = .start f input) :
    c.request request =
      { c with
        host := (c.host.run request).host
        drawn := c.drawn + (c.host.calling request + c.host.entering request)
        lives := ⟨f, request, c.host.given request, (c.host.run request).response, [], false⟩ ::
          c.lives } := by
  simp only [Chronicle.request, hroute]

theorem request_of_resume (hroute : c.host.route request = .resume id e) :
    c.request request =
      { host := (c.host.run request).host
        drawn := c.drawn + (c.host.calling request + c.host.entering request)
        lives := Life.enter id ⟨request, c.host.given request, (c.host.run request).response⟩
          c.lives
        accepted := c.accepted ++ [request] } := by
  simp only [Chronicle.request, hroute]

/-- The generator after the first move of a new execution. -/
theorem begun_ids (hroute : host.route request = .start f input) :
    (host.begun f request input).2.ids = host.ids.after (host.calling request) := by
  rw [Host.calling, hroute]
  exact Process.run_ids _ _ _

theorem Coherent.start_exit (h : Coherent origin c)
    (hroute : c.host.route request = .start f input)
    (hexit : (c.host.begun f request input).1.response.isExit = true) :
    Coherent origin (c.request request) := by
  have hentering : c.host.entering request = 0 := by
    simp only [Host.entering, hroute, hexit, if_true]
  have halone := Host.alone_begun hroute 0
  rw [h.alone_eq, Response.addressed_of_isExit hexit] at halone
  rw [request_of_start hroute, Host.run_of_start_of_exit hroute hexit]
  refine ⟨h.endpoint, h.maxWait, ?_, ?_, ?_, ?_⟩
  · show (c.host.begun f request input).2.ids = _
    rw [begun_ids hroute, h.ids, Ids.after_after, hentering, Nat.add_zero]
  · -- an exit leaves no entry behind
    have hlatest : (⟨f, request, c.host.given request,
        (c.host.begun f request input).1.response, [], false⟩ : Life ω).latest.isExit = true := hexit
    rw [List.filterMap_cons_none (Life.resident?_of_isExit hlatest)]
    exact h.entries
  · refine List.forall_mem_cons.2 ⟨Life.Sound.begun ?_ ?_, h.sound⟩
    · simp only [Response.instanceId?_of_isExit hexit, Option.getD_none, halone]
    · intro hpoll
      rw [hexit] at hpoll
      cases hpoll
  · refine List.pairwise_cons.2 ⟨?_, h.fresh⟩
    intro older holder hsuspended
    obtain ⟨id, hid, -⟩ := (h.sound older holder).resident?_of_suspended hsuspended
    rw [hid, Life.id?, Response.instanceId?_of_isExit hexit]
    exact nofun

theorem Coherent.start_poll (h : Coherent origin c) (hsize : c.host.resident < 2 ^ 64)
    (hroute : c.host.route request = .start f input)
    (hpoll : (c.host.begun f request input).1.response.isExit = false) :
    Coherent origin (c.request request) := by
  have hids := begun_ids hroute
  have hentering : c.host.entering request =
      c.host.residents.draws (c.host.ids.after (c.host.calling request)) := by
    simp only [Host.entering, hroute, hpoll, Bool.false_eq_true, if_false]
  have hfree := Residents.register_fresh hsize (c.host.started f request input)
    (c.host.begun f request input).2.ids
  rw [request_of_start hroute, Host.run_of_start_of_poll hroute hpoll]
  simp only [Residents.register_eq, hids] at hfree ⊢
  -- the id under which the execution is entered
  generalize hid : (c.host.ids.after (c.host.calling request)).nth _ = id at hfree ⊢
  have haddressed := Response.instanceId?_addressed hpoll id
  have halone := Host.alone_begun hroute id
  rw [h.alone_eq] at halone
  refine ⟨h.endpoint, h.maxWait, ?_, ?_, ?_, ?_⟩
  · show ((c.host.ids.after _).after _) = _
    rw [h.ids, Ids.after_after, Ids.after_after, hentering, h.ids]
  · have hentry : Life.resident? origin (⟨f, request, c.host.given request,
        (c.host.begun f request input).1.response.addressed id, [], false⟩ : Life ω) =
          some (id, c.host.started f request input) := by
      simp only [Life.resident?, Life.suspended, Life.latest, Life.responses, Life.alone, Life.id?,
        Life.asked]
      simp [haddressed, halone, hpoll]
    rw [List.filterMap_cons_some hentry, List.reverse_cons, ← h.entries]
  · refine List.forall_mem_cons.2 ⟨Life.Sound.begun ?_ ?_, h.sound⟩
    · simp only [haddressed, Option.getD_some, halone]
    · exact fun _ => ⟨id, haddressed⟩
  · -- the id is not in use, and those of the suspended lives are
    refine List.pairwise_cons.2 ⟨?_, h.fresh⟩
    intro older holder hsuspended heq
    refine hfree (h.mem_keys_iff.2 ⟨older, holder, hsuspended, ?_⟩)
    rw [← heq]
    exact haddressed

theorem Coherent.resume (h : Coherent origin c)
    (hroute : c.host.route request = .resume id e) : Coherent origin (c.request request) := by
  obtain ⟨result, -, -, hfind⟩ := Host.directive_of_route_resume hroute
  obtain ⟨life, hlife, hsuspended, hid, halone⟩ := h.exists_of_find? hfind
  obtain ⟨newer, older, hlives⟩ := List.append_of_mem hlife
  obtain ⟨hnewer, hentries, hbefore, hafter⟩ := h.entries_around hlives hsuspended hid
  have hsound := h.sound life hlife
  obtain ⟨hopen, hgoing⟩ := Life.suspended_iff.1 hsuspended
  -- what is resident is parked, and goes on as it would by itself
  obtain ⟨s?, hparked⟩ := origin.alone_parked life.function life.request life.given
    (life.id?.getD 0) life.asked
  rw [← Life.alone, halone, ← h.maxWait] at hparked
  obtain ⟨w, hstep⟩ := Host.resume_alone hroute hparked
  have hids : (e.resume request c.host.shared).2.2.ids = c.host.ids.after (e.draws request) := by
    rw [hparked]
    exact Execution.resume_ids s? request c.host.shared
  rw [request_of_resume hroute, hlives, Life.enter_eq hnewer hid, Host.run_of_resume hroute]
  -- what the execution replies, what it is left as, and the world after it
  generalize e.resume request c.host.shared = step at hstep hids ⊢
  obtain ⟨reply, e', w'⟩ := step
  rw [← halone] at hstep
  have hentry : (life.resumed ⟨request, c.host.given request, reply.told id⟩).resident? origin =
      if (reply.told id).isExit then none else some (id, e') := Life.resident?_resumed hopen hstep
  refine ⟨h.endpoint, h.maxWait, ?_, ?_, ?_, ?_⟩
  · have hcount : c.host.calling request + c.host.entering request = e.draws request := by
      simp only [Host.calling, Host.entering, hroute, Nat.add_zero]
    show w'.ids = _
    rw [hids, h.ids, Ids.after_after, hcount]
  · -- the table changes at the entry of the life, and nowhere else
    show (if (reply.told id).isExit then _ else _ : Residents _).entries = _
    rw [List.filterMap_append, List.reverse_append]
    cases hexit : (reply.told id).isExit with
    | true =>
      rw [hexit, if_pos rfl] at hentry
      rw [List.filterMap_cons_none hentry, if_pos rfl]
      exact Residents.erase_entries hentries hbefore hafter
    | false =>
      rw [hexit, if_neg Bool.false_ne_true] at hentry
      rw [List.filterMap_cons_some hentry, List.reverse_cons, List.append_assoc,
        List.singleton_append, if_neg Bool.false_ne_true]
      exact Residents.replace_entries hentries hbefore hafter
  · intro l hl
    have hsounds := h.sound
    rw [hlives, List.forall_mem_append, List.forall_mem_cons] at hsounds
    obtain ⟨hnewer, -, holder⟩ := hsounds
    revert l
    exact List.forall_mem_append.2
      ⟨hnewer, List.forall_mem_cons.2 ⟨hsound.resumed hgoing hid hstep, holder⟩⟩
  · -- the life keeps its id, and was suspended before
    have hfresh := h.fresh
    rw [hlives, List.pairwise_append, List.pairwise_cons] at hfresh
    obtain ⟨hnewers, ⟨holder, holders⟩, hacross⟩ := hfresh
    refine List.pairwise_append.2 ⟨hnewers, List.pairwise_cons.2 ⟨holder, holders⟩, ?_⟩
    intro l hl
    have hcross := hacross l hl
    rw [List.forall_mem_cons] at hcross ⊢
    exact ⟨fun _ => hcross.1 hsuspended, hcross.2⟩

/-! ## All commands -/

theorem drawn_request (c : Chronicle ω) (request : Request) :
    (c.request request).drawn =
      c.drawn + (c.host.calling request + c.host.entering request) := by
  unfold Chronicle.request
  cases c.host.route request <;> rfl

/-- A command keeps a chronicle coherent, as long as there is an id left for a new entry. -/
theorem Coherent.step (h : Coherent origin c) (command : Host.Command ω)
    (hsize : c.drawn < (c.step command).drawn → c.host.resident < 2 ^ 64) :
    Coherent origin (c.step command) := by
  cases command with
  | register f => exact h.register f
  | close => exact h.close
  | run request =>
    show Coherent origin (c.request request)
    cases hroute : c.host.route request with
    | start f input =>
      cases hexit : (c.host.begun f request input).1.response.isExit with
      | true => exact h.start_exit hroute hexit
      | false =>
        refine h.start_poll (hsize ?_) hroute hexit
        show _ < (c.request request).drawn
        have hentering := Host.entering_pos hroute hexit
        rw [drawn_request]
        omega
    | resume id e => exact h.resume hroute
    | refused status error =>
      rw [request_of_refused hroute]
      exact h

/-- A fresh host has no lives to agree with. -/
theorem coherent_fresh (ids : Ids) (endpoint : String) (maxWait : Span) :
    Coherent (.fresh ids endpoint maxWait : Host ω) { host := .fresh ids endpoint maxWait } :=
  ⟨rfl, rfl, ids.after_zero.symm, rfl, List.forall_mem_nil _, List.Pairwise.nil⟩

/-- As long as the table has room for a new entry after every command, a chronicle is coherent. -/
theorem coherent_of_room (ids : Ids) (endpoint : String) (maxWait : Span)
    (commands : List (Host.Command ω))
    (hroom : ∀ before, before <+: commands →
      (of (.fresh ids endpoint maxWait) before).host.resident < 2 ^ 64) :
    Coherent (.fresh ids endpoint maxWait) (of (.fresh ids endpoint maxWait) commands) := by
  -- on the commands, the latest last: the table had room before each of them
  induction commands using List.reverseRecOn with
  | nil => exact coherent_fresh ids endpoint maxWait
  | append_singleton commands command ih =>
    have hprefix := List.prefix_append commands [command]
    rw [of_append_singleton]
    apply (ih fun before hbefore => hroom before (hbefore.trans hprefix)).step
    exact fun _ => hroom commands hprefix

end Chronicle

end Resumable
