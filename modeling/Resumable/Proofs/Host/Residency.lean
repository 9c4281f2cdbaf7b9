import Mathlib.Data.List.Pairwise
import Resumable.Proofs.Host.Chronicle

/-!
# Residency

The ids of executions are drawn in the order in which they are entered (`ids_step`), so that no two
executions have the same one before 2^64 draws. With a coherent chronicle this says what is resident
after any commands (`residents_mirror_lives`).
-/

namespace Resumable

variable {ω : Type} {origin : Host ω} {c : Chronicle ω}

namespace Life

/-- The ids of lives, the oldest first. -/
def ids (lives : List (Life ω)) : List UInt64 := (lives.filterMap id?).reverse

theorem ids_enter (id : UInt64) (r : Resumption) (lives : List (Life ω)) :
    ids (enter id r lives) = ids lives := by
  unfold ids
  congr 1
  induction lives with
  | nil => rfl
  | cons life rest ih =>
    unfold enter
    split
    · rfl
    · simp only [List.filterMap_cons, ih]

theorem ids_close (lives : List (Life ω)) : ids (lives.map close) = ids lives := by
  unfold ids
  rw [List.filterMap_map]
  rfl

/-- An execution exits at most once. -/
theorem Sound.length_exits_le {life : Life ω} (h : life.Sound origin) :
    (life.responses.filter Response.isExit).length ≤ 1 := by
  have hbefore : life.responses.dropLast.filter Response.isExit = [] := by
    refine List.filter_eq_nil_iff.2 fun r hr => ?_
    simp [h.ended r hr]
  rw [responses_eq_concat, List.filter_append, hbefore, List.nil_append]
  exact List.length_filter_le _ _

end Life

namespace Chronicle

/-- A life is determined by its id if the ids are different. -/
theorem eq_of_id? {lives : List (Life ω)} (hnodup : (lives.filterMap Life.id?).Nodup)
    {life other : Life ω} {id : UInt64} (hlife : life ∈ lives) (hother : other ∈ lives)
    (hid : life.id? = some id) (hid' : other.id? = some id) : life = other := by
  by_contra hne
  have hsymm : Std.Symm fun a b : Life ω =>
      ∀ x, a.id? = some x → ∀ y, b.id? = some y → x ≠ y :=
    ⟨fun _ _ h x hx y hy => (h y hy x hx).symm⟩
  exact (List.pairwise_filterMap.1 hnodup).forall hlife hother hne id hid id hid' rfl

/-- A new life has an id among those drawn meanwhile. -/
theorem mem_given_of_start {host : Host ω} {f : Function ω} {request : Request} {input : Boxed}
    {id : UInt64} (hroute : host.route request = .start f input)
    (hid : (host.run request).response.instanceId? = some id) :
    id ∈ ((host.ids.after (host.calling request)).drawMany (host.entering request)).1 := by
  cases hexit : (host.begun f request input).1.response.isExit with
  | true =>
    rw [Host.run_of_start_of_exit hroute hexit] at hid
    simp only [Response.instanceId?_of_isExit hexit] at hid
    cases hid
  | false =>
    have hentering : host.entering request =
        host.residents.draws (host.ids.after (host.calling request)) := by
      simp only [Host.entering, hroute, hexit, Bool.false_eq_true, if_false]
    have hpos := Host.entering_pos hroute hexit
    rw [Host.run_of_start_of_poll hroute hexit] at hid
    simp only [Residents.register_eq, begun_ids hroute, Response.instanceId?_addressed hexit,
      Option.some.injEq] at hid
    rw [← hid, ← hentering, Ids.drawMany_eq]
    exact List.mem_map_of_mem (List.mem_range.2 (Nat.sub_one_lt_of_lt hpos))

/-- The ids of the lives are drawn one after the other. -/
theorem ids_step (hids : c.host.ids = origin.ids.after c.drawn)
    (hdrawn : (Life.ids c.lives).Sublist (origin.ids.drawMany c.drawn).1)
    (command : Host.Command ω) :
    (Life.ids (c.step command).lives).Sublist
      (origin.ids.drawMany (c.step command).drawn).1 := by
  cases command with
  | register f => exact hdrawn
  | close =>
    show (Life.ids (c.lives.map Life.close)).Sublist _
    rw [Life.ids_close]
    exact hdrawn
  | run request =>
    show (Life.ids (c.request request).lives).Sublist
      (origin.ids.drawMany (c.request request).drawn).1
    rw [drawn_request, Ids.drawMany_add, ← hids]
    cases hroute : c.host.route request with
    | start f input =>
      rw [request_of_start hroute]
      cases hid : (c.host.run request).response.instanceId? with
      | none =>
        simp only [Life.ids, List.filterMap_cons, Life.id?, hid]
        exact hdrawn.trans (List.sublist_append_left _ _)
      | some id =>
        have hmem := mem_given_of_start hroute hid
        simp only [Life.ids, List.filterMap_cons, Life.id?, hid]
        rw [List.reverse_cons, Ids.drawMany_add]
        exact hdrawn.append ((List.singleton_sublist.2 hmem).trans (List.sublist_append_right _ _))
    | resume id e =>
      rw [request_of_resume hroute, Life.ids_enter]
      exact hdrawn.trans (List.sublist_append_left _ _)
    | refused status error =>
      rw [request_of_refused hroute]
      exact hdrawn.trans (List.sublist_append_left _ _)

/-- The residents are as many as the suspended lives. -/
theorem Coherent.resident_eq (h : Coherent origin c) :
    c.host.resident = (c.lives.filter Life.suspended).length := by
  rw [Host.resident, Residents.size, h.entries, List.length_reverse,
    List.length_filterMap_eq_countP, ← List.countP_eq_length_filter]
  refine List.countP_congr fun life hlife => ?_
  constructor
  · intro hentry
    obtain ⟨entry, hentry⟩ := Option.isSome_iff_exists.1 hentry
    exact Life.suspended_of_resident? hentry
  · intro hsuspended
    obtain ⟨id, -, hentry⟩ := (h.sound life hlife).resident?_of_suspended hsuspended
    rw [hentry]
    rfl

/-- No two suspended executions have the same id. -/
theorem Coherent.nodup_suspended (h : Coherent origin c) :
    ((c.lives.filter Life.suspended).map Life.id?).Nodup := by
  refine List.pairwise_map.2 ((h.fresh.filter Life.suspended).imp_of_mem ?_)
  intro newer older _ holder hne
  exact hne (List.mem_filter.1 holder).2

/-- Nothing is resident under an id whose execution has exited or was closed, if no other execution
had that id. -/
theorem Coherent.find?_of_ended (h : Coherent origin c)
    (hnodup : (c.lives.filterMap Life.id?).Nodup) {life : Life ω} {id : UInt64}
    (hlife : life ∈ c.lives) (hended : life.suspended = false) (hid : life.id? = some id) :
    c.host.residents.find? id = none := by
  rw [Residents.find?_eq_none_iff, h.mem_keys_iff]
  rintro ⟨other, hother, hsuspended, hid'⟩
  rw [eq_of_id? hnodup hother hlife hid' hid, hended] at hsuspended
  cases hsuspended

/-- There are no more residents than ids drawn. -/
theorem Coherent.resident_le (h : Coherent origin c)
    (hdrawn : (Life.ids c.lives).Sublist (origin.ids.drawMany c.drawn).1) :
    c.host.resident ≤ c.drawn := by
  have hlength := hdrawn.length_le
  rw [Life.ids, List.length_reverse, Ids.length_drawMany] at hlength
  refine Nat.le_trans ?_ hlength
  rw [h.resident_eq, ← List.countP_eq_length_filter, List.length_filterMap_eq_countP]
  -- a suspended life has an id
  refine List.countP_mono_left fun life hlife hsuspended => ?_
  obtain ⟨id, hid, -⟩ := (h.sound life hlife).resident?_of_suspended hsuspended
  simp [hid]

theorem drawn_le_step (c : Chronicle ω) (command : Host.Command ω) :
    c.drawn ≤ (c.step command).drawn := by
  cases command with
  | register f => exact Nat.le_refl _
  | close => exact Nat.le_refl _
  | run request =>
    show _ ≤ (c.request request).drawn
    rw [drawn_request]
    exact Nat.le_add_right _ _

/-- Up to 2^64 draws, a chronicle is coherent and its lives have different ids. -/
theorem coherent_of_drawn (ids : Ids) (endpoint : String) (maxWait : Span)
    (commands : List (Host.Command ω))
    (hdrawn : (of (.fresh ids endpoint maxWait) commands).drawn ≤ 2 ^ 64) :
    Coherent (.fresh ids endpoint maxWait) (of (.fresh ids endpoint maxWait) commands) ∧
      (Life.ids (of (.fresh ids endpoint maxWait) commands).lives).Sublist
        (ids.drawMany (of (.fresh ids endpoint maxWait) commands).drawn).1 := by
  induction commands using List.reverseRecOn with
  | nil => exact ⟨coherent_fresh ids endpoint maxWait, List.nil_sublist _⟩
  | append_singleton commands command ih =>
    rw [of_append_singleton] at hdrawn ⊢
    have hle := drawn_le_step (of (.fresh ids endpoint maxWait) commands) command
    obtain ⟨hcoherent, hsublist⟩ := ih (Nat.le_trans hle hdrawn)
    refine ⟨hcoherent.step command fun hlt => ?_, ids_step hcoherent.ids hsublist command⟩
    have hresident := hcoherent.resident_le hsublist
    omega

theorem drawn_mono {host : Host ω} {before commands : List (Host.Command ω)}
    (h : before <+: commands) : (of host before).drawn ≤ (of host commands).drawn := by
  obtain ⟨rest, rfl⟩ := h
  induction rest using List.reverseRecOn with
  | nil => simp
  | append_singleton rest command ih =>
    rw [← List.append_assoc, of_append_singleton]
    exact Nat.le_trans ih (drawn_le_step _ command)

/-- Fewer than 2^64 draws leave room in the table all the time. -/
theorem room_of_drawn {ids : Ids} {endpoint : String} {maxWait : Span}
    {commands : List (Host.Command ω)}
    (hdrawn : (of (.fresh ids endpoint maxWait) commands).drawn < 2 ^ 64) :
    ∀ before, before <+: commands →
      (of (.fresh ids endpoint maxWait) before).host.resident < 2 ^ 64 := by
  intro before hbefore
  have hlt := Nat.lt_of_le_of_lt (drawn_mono hbefore) hdrawn
  obtain ⟨hcoherent, hsublist⟩ := coherent_of_drawn ids endpoint maxWait before (Nat.le_of_lt hlt)
  exact Nat.lt_of_le_of_lt (hcoherent.resident_le hsublist) hlt

/-- The table holds exactly the suspended executions, each under the id that its most recent poll
tells, which is the same in all its polls and no other resident execution's. Every execution exits at
most once. Until the ids come round, no two executions ever have the same one, and a request to
resume one that has exited or was closed is refused.

A host looks for an id that is free and finds none once 2^64 executions are resident; before 2^64
draws there are always fewer (`room_of_drawn`). -/
theorem residents_mirror_lives (ids : Ids) (endpoint : String) (maxWait : Span)
    (commands : List (Host.Command ω))
    (hroom : ∀ before, before <+: commands →
      (of (.fresh ids endpoint maxWait) before).host.resident < 2 ^ 64) :
    let origin : Host ω := .fresh ids endpoint maxWait
    let c := of origin commands
    -- the chronicle is that of the host, and counts the ids drawn
    (c.host = commands.foldl Host.execute origin ∧ c.host.ids = ids.after c.drawn) ∧
    -- the table: an entry for every suspended execution
    c.host.residents.entries = c.lives.reverse.filterMap (Life.resident? origin) ∧
    c.host.resident = (c.lives.filter Life.suspended).length ∧
    -- the ids: one for all polls of an execution, and another one for every resident execution
    (∀ life ∈ c.lives, ∀ r ∈ life.responses, r.isExit = false →
      ∃ id, life.id? = some id ∧ r.instanceId? = some id) ∧
    ((c.lives.filter Life.suspended).map Life.id?).Nodup ∧
    -- the ends
    (∀ life ∈ c.lives, (life.responses.filter Response.isExit).length ≤ 1) ∧
    (c.drawn ≤ 2 ^ 64 → (c.lives.filterMap Life.id?).Nodup ∧
      ∀ life ∈ c.lives, life.suspended = false → ∀ request f result id,
        c.host.lookup request.function = .ok f → request.directive = .pollResult result →
        Host.instanceId result.state = .ok id → life.id? = some id →
        let outcome := c.host.run request
        outcome.response.status = .incompatibleState ∧ outcome.response.isExit = true ∧
          outcome.host = c.host) := by
  intro origin c
  have hcoherent : Coherent origin c := coherent_of_room ids endpoint maxWait commands hroom
  refine ⟨⟨of_host origin commands, hcoherent.ids⟩, ?_, hcoherent.resident_eq, ?_,
    hcoherent.nodup_suspended, ?_, ?_⟩
  · rw [hcoherent.entries, List.filterMap_reverse]
  · exact fun life hlife => (hcoherent.sound life hlife).addressed
  · exact fun life hlife => (hcoherent.sound life hlife).length_exits_le
  · intro hdrawn
    have hsublist := (coherent_of_drawn ids endpoint maxWait commands hdrawn).2
    have hnodup : (c.lives.filterMap Life.id?).Nodup :=
      List.nodup_reverse.1 (hsublist.nodup (ids.nodup_drawMany hdrawn))
    refine ⟨hnodup, ?_⟩
    intro life hlife hended request f result id hlookup hdirective hstate hid outcome
    have hnone := hcoherent.find?_of_ended hnodup hlife hended hid
    have hroute := Host.route_of_pollResult hlookup hdirective hstate
    rw [hnone] at hroute
    have houtcome : outcome = c.host.refuse .incompatibleState (.instanceNotFound id) :=
      Host.run_of_refused hroute
    rw [houtcome]
    exact ⟨rfl, rfl, rfl⟩

/-- Two executions, entered under 2^64 - 1 and, over the wrap, under 1; the first exits, is resumed
again and is refused. -/
theorem residents_mirror_lives_over_the_wrap :
    let seed : UInt64 := 18446744073709551614
    let f : Function Unit :=
      { name := "f", run := fun _ _ => .await .all [{}] fun _ => .done (.output .null) }
    let resume : Request :=
      { function := "f"
        directive := .pollResult
          { results := [{ correlationId := seed }]
            state := .ofId 18446744073709551615 } }
    let begin : Request := { function := "f", directive := .input .null }
    let commands := [.register f, .run begin, .run begin, .run resume]
    let c := of (.fresh (.startingAt seed) "" .zero) commands
    (∀ before, before <+: commands →
      (of (.fresh (.startingAt seed) "" .zero) before).host.resident < 2 ^ 64) ∧
      c.drawn ≤ 2 ^ 64 ∧ c.lives.filterMap Life.id? = [1, 18446744073709551615] ∧
      (c.lives.filterMap Life.id?).Nodup ∧
      c.host.resident = (c.lives.filter Life.suspended).length ∧ c.host.resident = 1 ∧
      (c.host.run resume).response.status = .incompatibleState := by
  intro seed f resume begin commands c
  have hlt : c.drawn < 2 ^ 64 := by decide
  have hroom := room_of_drawn hlt
  have hids : c.lives.filterMap Life.id? = [1, 18446744073709551615] := by decide
  have hone : c.host.resident = 1 := by decide
  obtain ⟨⟨hhost, -⟩, -, hresident, -, -, -, hends⟩ :=
    residents_mirror_lives (.startingAt seed) "" .zero commands hroom
  obtain ⟨hnodup, hrefused⟩ := hends (Nat.le_of_lt hlt)
  refine ⟨hroom, Nat.le_of_lt hlt, hids, hnodup, hresident, hone, ?_⟩
  -- the execution that has exited, and the function, which is still registered
  obtain ⟨life, hlife, hended, hid⟩ : ∃ life ∈ c.lives, life.suspended = false ∧
      life.id? = some 18446744073709551615 := by decide
  have hlookup : c.host.lookup resume.function = .ok f := by
    have hregistered : (Host.execute (.fresh (.startingAt seed) "" .zero) (.register f)).lookup
        resume.function = .ok f := rfl
    rw [hhost, List.foldl_cons]
    exact Host.lookup_foldl_execute hregistered _
  have hc : c = of (.fresh (.startingAt seed) "" .zero) commands := rfl
  rw [hc]
  exact (hrefused life hlife hended resume f _ _ hlookup rfl (Host.instanceId_ofId _) hid).1

end Chronicle

end Resumable
