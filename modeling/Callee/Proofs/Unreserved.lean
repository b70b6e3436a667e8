import Callee.Proofs.GivingUp

set_option autoImplicit false

/-! # Calls without a reserved return

A call gets a record although no return can be reserved for it, because the connection is broken, because the
transport refuses or because there is no room for a return (`Withholds`). Everything that can be done to a
call can be done to this one too, and none of it gets the record a message, results or references
(`View.Barren`), so nothing is sent for the call and nothing exported.

What is left is the course of the record. Its return is never on its way, so nothing comes between the
beginning of its completion and the end of it (`Mute.settles_iff`): the record leaves when the call was
completed, or given up, and the peer has finished it, whichever comes first (`Mute.forgets_iff`). -/

namespace Callee

/-! ## Room for a return -/

/-- Only for want of room is a message not made a return. -/
theorem Message.startReturn_eq_error_iff (m : Message) (id : AnswerId) (e : Error) :
    m.startReturn id = .error e ↔ m.arena.allocate (messageWords + returnWords) = .error e := by
  rw [startReturn_eq]
  exact ⟨eq_error_of_map_eq_error, fun hfull => by rw [hfull]; rfl⟩

/-! ## Views with nothing to show -/

/-- A call has nothing to show: no return to build, and no results. -/
inductive View.Barren : View → Prop
  | running (caller : Option CallerName) : Barren (.running caller none)
  | failed (e : Error) : Barren (.completed (.error e))
  | empty : Barren (.completed (.ok none))

namespace View.Barren

theorem after {v : View} (h : v.Barren) (d : Deed) : (v.after d).Barren := by
  cases h with
  | running caller =>
      cases d with
      | route name => exact .running _
      | cut => exact .running _
      | complete down result =>
          cases result with
          | ok u => exact .empty
          | error e => exact .failed e
      | giveUp => exact .failed _
      | _ => exact .running caller
  | failed e => cases d <;> exact .failed e
  | empty => cases d <;> exact .empty

theorem foldl {v : View} (h : v.Barren) (ds : List Deed) : (ds.foldl View.after v).Barren := by
  induction ds generalizing v with
  | nil => exact h
  | cons d rest ih => exact ih (h.after d)

end View.Barren

/-- A record has no message and no results, and notes no references. -/
structure Answer.Bare (a : Answer) : Prop where
  message : a.message = none
  results : a.results = none
  exports : a.exports = []

namespace Connection

open Books

/-! ## Why there is no return -/

/-- No return can be reserved, because of an error. -/
inductive Withholds (c : Connection) : Error → Prop
  | broken {e : Error} (link : c.link = .broken e) : Withholds c e
  | refused {e : Error} (link : c.link = .up) (fails : c.transport.failReservations = some e) : Withholds c e
  | cramped {limit : Nat} (link : c.link = .up) (reserves : c.transport.failReservations = none)
      (limited : c.transport.wordLimit = some limit)
      (room : limit < (messageWords + returnWords).toNat) : Withholds c (.creatingReturn (.sizeLimit limit))

theorem reserveReturn_eq_error_iff (c : Connection) (id : AnswerId) (e : Error) :
    (c.reserveReturn id).1 = .error e ↔ c.Withholds e := by
  have hblank : (c.messages.create c.transport.wordLimit).2.message
      (c.messages.create c.transport.wordLimit).1 = { arena := { wordLimit := c.transport.wordLimit } } := by
    simp [MessageStore.create, MessageStore.message, MessageStore.arena]
  have hstart := Message.startReturn_eq_error_iff { arena := { wordLimit := c.transport.wordLimit } } id
  simp only [Arena.allocate_eq_error_iff, Nat.zero_add] at hstart
  constructor
  · intro h
    cases hlink : c.link with
    | broken x =>
        simp only [reserveReturn, hlink, Except.error.injEq] at h
        exact .broken (h ▸ hlink)
    | up =>
        cases hfail : c.transport.failReservations with
        | some x =>
            simp only [reserveReturn, reserve, emit, hlink, hfail, Except.error.injEq] at h
            exact .refused hlink (h ▸ hfail)
        | none =>
            simp only [reserveReturn, reserve, emit, hlink, hfail, hblank] at h
            split at h
            · next x hx =>
                obtain ⟨limit, limited, room, rfl⟩ := (hstart x).1 hx
                obtain rfl := Except.error.inj h
                exact .cramped hlink hfail limited room
            · exact absurd h (by simp)
  · rintro (link | ⟨link, fails⟩ | ⟨link, reserves, limited, room⟩)
    · simp [reserveReturn, link]
    · simp [reserveReturn, reserve, emit, link, fails]
    · have hfull := (hstart _).2 ⟨_, limited, room, rfl⟩
      simp [reserveReturn, reserve, emit, link, reserves, hblank, hfull]

/-- Without a reserved return a call is admitted all the same. -/
theorem newAnswer_eq_unsendable_iff (c : Connection) (id : AnswerId) (token : Token) (h : Handle)
    (e : Error) : (c.newAnswer id token).1 = .unsendable h e ↔
      c.answers.get? id = none ∧ h = ⟨id, c.nextCall⟩ ∧ c.Withholds e := by
  rw [← c.reserveReturn_eq_error_iff id e]
  cases ha : c.answers.get? id with
  | some a => simp [c.newAnswer_of_live token ha]
  | none =>
      have hfree : c.answers.contains id = false := by simp [Table.contains, ha]
      simp only [newAnswer, hfree, Bool.false_eq_true, if_false]
      cases hreserved : (c.reserveReturn id).1 with
      | ok envelope => simp
      | error x => simp [eq_comm]

/-- The executor has the handle of a call that was admitted without one. -/
theorem holds_newAnswer {c : Connection} {id : AnswerId} {token : Token} {h : Handle} {e : Error}
    (hreply : (c.newAnswer id token).1 = .unsendable h e) : (c.newAnswer id token).2.holds h = true := by
  obtain ⟨hfree, rfl, -⟩ := (c.newAnswer_eq_unsendable_iff id token h e).1 hreply
  obtain ⟨admission, ms, hs, heq, -⟩ := c.newAnswer_shape token hfree
  rw [heq]
  simp [holds]

/-! ## Returns that are never on their way -/

/-- A task that has a handle is to complete its call, and has begun to or has not. -/
theorem stage_of_holds {c : Connection} {t : TaskId} {h : Handle} {s : HandleStage}
    (hold : c.books.Holds (.task t) h s) : ∃ stage guard,
      c.tasks.get? t = some ⟨.sendReturn h stage, guard⟩ ∧ stage.owes = some s := by
  obtain ⟨⟨work, guard⟩, hget, howes⟩ := Option.bind_eq_some_iff.1 hold
  obtain ⟨stage, rfl, hstage⟩ := stage_of_owes howes
  exact ⟨stage, guard, hget, hstage⟩

theorem unbegun_of_holds {c : Connection} {t : TaskId} {h : Handle}
    (hold : c.books.Holds (.task t) h .building) :
    ∃ result guard, c.tasks.get? t = some ⟨.sendReturn h (.unbegun result), guard⟩ := by
  obtain ⟨stage, guard, hget, hstage⟩ := stage_of_holds hold
  cases stage with
  | unbegun result => exact ⟨result, guard, hget⟩
  | sending send f => exact absurd hstage (by simp [ReturnStage.owes])
  | draining w => exact absurd hstage (by simp [ReturnStage.owes])

theorem holds_of_completes {c : Connection} {h : Handle} {action : Action}
    (hcompletes : c.Completes h action) : ∃ p, c.books.Holds p h .building := by
  cases hcompletes with
  | @polled t result guard found => exact ⟨.task t, taskOwes_of_get? (b := c.books) found⟩
  | @dropped t result guard found => exact ⟨.task t, taskOwes_of_get? (b := c.books) found⟩
  | abandoned held => exact ⟨.executor, holds_executor held⟩

/-- No return of the call was handed over, and none may be. -/
structure Mute (c : Connection) (call : CallId) : Prop where
  barred : ¬ c.Unsent call
  silent : c.sends call = []

namespace Mute

variable {c : Connection} {h : Handle}

theorem step (hm : c.Mute h.call) (hc : Reachable c) (action : Action) : (c.step action).2.Mute h.call where
  barred hunsent := hm.barred (unsent_step hc hunsent).1
  silent := (sends_after hc hm.barred [action]).trans hm.silent

/-- Whoever has the handle has yet to complete the call. -/
theorem building (hm : c.Mute h.call) (hc : Reachable c) {p : Holder} {s : HandleStage}
    (hold : c.books.Holds p h s) : s = .building := by
  cases p with
  | executor => exact hold.2
  | task t =>
      obtain ⟨stage, guard, hget, hstage⟩ := stage_of_holds hold
      cases stage with
      | draining w => exact absurd hstage (by simp [ReturnStage.owes])
      | unbegun result => exact (Option.some.inj hstage).symm
      | sending send f =>
          exfalso
          cases send with
          | waiting e => exact hm.barred (Or.inr (Or.inr ⟨t, h, e, ⟨f, guard, hget⟩, rfl⟩))
          | transmitting e gate =>
              -- what is at the transport was handed over
              have ht : c.Transmits t (some h.call, e.root) := ⟨e, gate, outgoing_of_get? hget, rfl⟩
              obtain ⟨rest, hturns, -⟩ := hc.inTurn.current t _ ht
              have hcount := count_turns_some c h.call
              rw [hturns, hm.silent, List.map_cons, List.count_cons_self] at hcount
              exact absurd hcount (Nat.succ_ne_zero _)

/-- So the wait for its return ends with the beginning of its completion. -/
theorem settles_iff (hm : c.Mute h.call) (hc : Reachable c) (action : Action) :
    c.Settles action h ↔ c.Completes h action := by
  constructor
  · intro hsettles
    obtain ⟨p, s, hold, hends⟩ := ends_of_settles hc hsettles
    obtain rfl := hm.building hc hold
    cases action with
    | dropHandle k =>
        obtain ⟨rfl, rfl⟩ := hends
        exact .abandoned (decide_eq_true hold.1)
    | poll t =>
        obtain rfl : p = .task t := hends
        obtain ⟨result, guard, hget⟩ := unbegun_of_holds hold
        exact .polled hget
    | dropTask t =>
        obtain rfl : p = .task t := hends
        obtain ⟨result, guard, hget⟩ := unbegun_of_holds hold
        exact .dropped hget
    | _ => exact hends.elim
  · intro hcompletes
    obtain ⟨p, hold⟩ := holds_of_completes hcompletes
    refine (c.settles_iff action h).2 ⟨⟨p, _, hold⟩, ?_⟩
    rintro ⟨q, s, hleft⟩
    obtain rfl := (hm.step hc action).building (.step action hc) hleft
    exact not_closed_of_building (.step action hc) hleft (closed_of_completes hc hcompletes)

end Mute

/-- The call is completed, or given up, over a run. -/
def CompletesIn (c : Connection) (h : Handle) (actions : List Action) : Prop :=
  ∃ before action more, actions = before ++ action :: more ∧ (c.after before).Completes h action

theorem completesIn_cons_iff (c : Connection) (h : Handle) (action : Action) (rest : List Action) :
    c.CompletesIn h (action :: rest) ↔ c.Completes h action ∨ (c.step action).2.CompletesIn h rest := by
  constructor
  · rintro ⟨before, action', more, heq, hcompletes⟩
    cases before with
    | nil =>
        obtain ⟨rfl, -⟩ := List.cons.inj heq
        exact Or.inl hcompletes
    | cons first before =>
        obtain ⟨rfl, rfl⟩ := List.cons.inj heq
        exact Or.inr ⟨before, action', more, rfl, hcompletes⟩
  · rintro (hcompletes | ⟨before, action', more, rfl, hcompletes⟩)
    · exact ⟨[], action, rest, rfl, hcompletes⟩
    · exact ⟨action :: before, action', more, rfl, hcompletes⟩

/-- A record whose return is never on its way leaves when the call was completed and the finish has come. -/
theorem Mute.forgets_iff {c : Connection} (hc : Reachable c) {h : Handle} (hm : c.Mute h.call) {a : Answer}
    (ha : c.answers.get? h.id = some a) (hown : a.call = h.call) (more : List Action) :
    (c.after more).Forgets h.call ↔ (a.state.returnSent = true ∨ c.CompletesIn h more) ∧
      (a.state.finishReceived = true ∨ ∃ releaseCaps, .finish h.id releaseCaps ∈ more) := by
  induction more generalizing c a with
  | nil =>
      have hpending := hc.custody.not_done (status_of_get? (b := c.books) ha)
      refine iff_of_false (fun hgone => hgone h.id a ha hown) ?_
      rintro ⟨hsent | ⟨before, action, more, heq, -⟩, hfinish | ⟨releaseCaps, hin⟩⟩
      · exact absurd (((AnswerState.isDone_iff _).2 ⟨hsent, hfinish⟩).symm.trans hpending) (by simp)
      · exact absurd hin List.not_mem_nil
      · exact absurd heq (by simp)
      · exact absurd hin List.not_mem_nil
  | cons action rest ih =>
      have hsettles := hm.settles_iff hc action
      have hown' : (⟨h.id, a.call⟩ : Handle) = h := by rw [hown]
      have hcons : (∃ releaseCaps, .finish h.id releaseCaps ∈ action :: rest) ↔
          action.IsFinish h.id ∨ ∃ releaseCaps, .finish h.id releaseCaps ∈ rest := by
        simp only [List.mem_cons, exists_or, Action.IsFinish, eq_comm]
      rw [completesIn_cons_iff, hcons, after_cons]
      cases hnext : (c.step action).2.answers.get? h.id with
      | none =>
          have hleft := (get?_eq_none_iff hc ha action).1 hnext
          rw [hown', hsettles] at hleft
          have hgone := forgets_of_left hc ha hnext rest
          rw [hown, after_cons] at hgone
          refine iff_of_true hgone ?_
          rcases hleft with ⟨hsent, hfinish⟩ | ⟨hfinish, hcompletes⟩
          · exact ⟨Or.inl hsent, Or.inr (Or.inl hfinish)⟩
          · exact ⟨Or.inr (Or.inl hcompletes), Or.inl hfinish⟩
      | some b =>
          -- either signal is noted in the record, or is still to come
          obtain ⟨hcall, hsent, hfinish, -⟩ := flags_step hc action ha hnext
          rw [hown', hsettles] at hsent
          have hrest := ih (.step action hc) (hm.step hc action) hnext (hcall.trans hown)
          rw [hrest, hsent, hfinish, or_assoc, or_assoc]

/-! ## Records with nothing in them -/

theorem bare_of_barren {c : Connection} (hc : Reachable c) {id : AnswerId} {a : Answer}
    (ha : c.answers.get? id = some a) (hbarren : (c.viewOf a).Barren) : a.Bare := by
  have hrecord := hc.coherent_record ha
  cases hready : a.state.resultsReady with
  | false =>
      obtain ⟨-, hresults, hexports⟩ := hrecord.of_open hready
      have hmessage : a.message = none := by
        by_contra hsome
        obtain ⟨e, he⟩ := Option.ne_none_iff_exists'.1 hsome
        simp only [viewOf, hready, he, Bool.false_eq_true, if_false, Option.map_some] at hbarren
        cases hbarren
      exact ⟨hmessage, hresults, hexports⟩
  | true =>
      have hresults : a.results = none := by
        by_contra hsome
        obtain ⟨r, hr⟩ := Option.ne_none_iff_exists'.1 hsome
        simp only [viewOf, hready, (hrecord.results hsome).2, hr, if_true, Option.map_some] at hbarren
        cases hbarren
      exact ⟨hrecord.parted hready, hresults, by_contra fun hne => hrecord.exports hne hresults⟩

/-- Whatever happens to a call without a return, its record stays under its id and gets nothing. -/
theorem bare_after {c : Connection} (hc : Reachable c) {h : Handle} {token : Token}
    (ha : c.answers.get? h.id = some { call := h.call, token := token }) (more : List Action) {id : AnswerId}
    {b : Answer} (hb : (c.after more).answers.get? id = some b) (hown : b.call = h.call) :
    id = h.id ∧ b.Bare := by
  obtain ⟨rfl, -⟩ := keptBy_after hc more ha hb hown
  have hstart : c.view? h = some (.running none none) := (c.view?_eq_some_iff h _).2 ⟨_, ha, rfl, rfl⟩
  have hview := ((c.after more).view?_eq_some_iff h _).2 ⟨b, hb, hown, rfl⟩
  obtain ⟨v, hv, hafter⟩ := view?_after hc (hc.call_lt ha) more hview
  obtain rfl := Option.some.inj (hv.symm.trans hstart)
  refine ⟨rfl, bare_of_barren (hc.after more) hb ?_⟩
  rw [hafter]
  exact (View.Barren.running none).foldl _

/-- What is handed out is handed out for a record that has its return. -/
theorem not_mem_handsOut {c : Connection} (hc : Reachable c) {call : CallId}
    (hbare : ∀ id a, c.answers.get? id = some a → a.call = call → a.Bare) (action : Action) (e : ExportId) :
    (call, e) ∉ c.handsOut action := by
  have hmoves := moves_step hc action
  refine List.count_eq_zero.1 ?_
  by_cases hrecord : ∃ id a, c.answers.get? id = some a ∧ a.call = call
  · obtain ⟨id, a, ha, rfl⟩ := hrecord
    have hnothing := hbare id a ha rfl
    exact (hmoves.count_of_spent hc ha hnothing.message hnothing.exports e).1
  · exact (hmoves.count_of_new (fun id a ha hcall => hrecord ⟨id, a, ha, hcall⟩) e).1

/-- A call that is resolved is resolved against the results of a record. -/
theorem results_of_resolved {c : Connection} {id : AnswerId} {call p : PipelinedCall} {target : Capability}
    (h : (c.forward id call).1 = .ok (.resolved target p)) :
    ∃ a, c.answers.get? id = some a ∧ a.results ≠ none := by
  have hroute : c.route id call.path = .ok (.target target) := by
    unfold forward forwardWithin at h
    split at h
    · exact absurd h (by simp)
    · next cap heq =>
        obtain ⟨rfl, -⟩ := Forwarded.resolved.inj (Except.ok.inj h)
        exact heq
    · dsimp only at h
      split at h <;> exact absurd h (by simp)
  unfold route at hroute
  split at hroute
  · exact absurd hroute (by simp)
  · next a ha =>
      refine ⟨a, ha, fun hnone => ?_⟩
      simp only [hnone] at hroute
      repeat' split at hroute
      all_goals exact absurd hroute (by simp)

/-- Whoever holds the handle of such a record is told that it has no return. -/
theorem openReturn_of_bare {c : Connection} (hc : Reachable c) {h : Handle} (hheld : c.holds h = true)
    (hbare : ∀ id a, c.answers.get? id = some a → a.call = h.call → a.Bare) :
    ∃ a, c.answers.get? h.id = some a ∧ a.openReturn h.id = .error (.noReturnMessage h.id) := by
  obtain ⟨a, ha, hown, -, hopen⟩ := hc.custody.found_at (holds_executor hheld)
  refine ⟨a, ha, ?_⟩
  simp [Answer.openReturn, hopen, (hbare h.id a ha hown).message]

theorem allocateResults_of_bare {c : Connection} (hc : Reachable c) {h : Handle}
    (hbare : ∀ id a, c.answers.get? id = some a → a.call = h.call → a.Bare) (size : ObjectSize) :
    c.step (.allocateResults h size) =
      (if c.holds h then .failed (.allocatingResults (.noReturnMessage h.id)) else .refused, c) := by
  cases hheld : c.holds h with
  | false => simp [step, hheld]
  | true =>
      obtain ⟨a, ha, hnone⟩ := openReturn_of_bare hc hheld hbare
      simp [step, hheld, allocateResults, ha, hnone]

theorem setBootstrap_of_bare {c : Connection} (hc : Reachable c) {h : Handle}
    (hbare : ∀ id a, c.answers.get? id = some a → a.call = h.call → a.Bare) (cap : Capability) :
    c.step (.setBootstrap h cap) =
      (if c.holds h then .failed (.allocatingBootstrap (.noReturnMessage h.id)) else .refused, c) := by
  cases hheld : c.holds h with
  | false => simp [step, hheld]
  | true =>
      obtain ⟨a, ha, hnone⟩ := openReturn_of_bare hc hheld hbare
      simp [step, hheld, setBootstrap, ha, hnone]

/-! ## All connections -/

/-- What becomes of a call that an action admits without a return. -/
structure Unreserved (c : Connection) (action : Action) (h : Handle) (e : Error) : Prop where
  /-- The connection is broken, the transport refuses, or there is no room for a return. -/
  cause : c.Withholds e
  /-- The executor has the handle, as if nothing had happened. -/
  held : (c.step action).2.holds h = true
  record : ∃ token, (c.step action).2.answers.get? h.id = some { call := h.call, token := token }
  /-- The record stays under its id, and gets no message, no results and no references. -/
  bare : ∀ more id b, (c.after (action :: more)).answers.get? id = some b → b.call = h.call →
    id = h.id ∧ b.Bare
  /-- Whoever makes room for results is told that there is no return. -/
  allocates : ∀ more size, (c.after (action :: more)).step (.allocateResults h size) =
    (if (c.after (action :: more)).holds h then .failed (.allocatingResults (.noReturnMessage h.id))
      else .refused, c.after (action :: more))
  /-- So is who makes a capability the results, and the capability is not kept. -/
  boots : ∀ more cap, (c.after (action :: more)).step (.setBootstrap h cap) =
    (if (c.after (action :: more)).holds h then .failed (.allocatingBootstrap (.noReturnMessage h.id))
      else .refused, c.after (action :: more))
  /-- Nothing is handed over for the call. -/
  silent : ∀ more, (c.after (action :: more)).sends h.call = []
  /-- Nothing is exported for it. -/
  exports : ∀ more x, (h.call, x) ∉ along handsOut c (action :: more)
  /-- No pipelined call is resolved against it. The connection `d` is the one that the run comes to or, where
      receivers forward calls, one that differs from it in its dealings only. -/
  resolves : ∀ more (d : Connection) call target p, d.books = (c.after (action :: more)).books →
    ¬ d.Forgets h.call → (d.forward h.id call).1 ≠ .ok (.resolved target p)
  /-- As long as there is a record of it, its id is in use. -/
  taken : ∀ more token, ¬ (c.after (action :: more)).Forgets h.call →
    (c.after (action :: more)).step (.newAnswer h.id token) =
      (.admitted (.duplicate (.idReused h.id)), c.after (action :: more))
  /-- The record leaves when the call was completed, or given up, and the finish has come. -/
  leaves : ∀ more, (c.after (action :: more)).Forgets h.call ↔
    (c.step action).2.CompletesIn h more ∧ ∃ releaseCaps, .finish h.id releaseCaps ∈ more

/-- On every connection that can come about, that is what becomes of a call without a reserved return. -/
theorem Reachable.unreserved {c : Connection} (hc : Reachable c) {action : Action} {h : Handle} {e : Error}
    (hreply : (c.step action).1 = .admitted (.unsendable h e) ∨
      (c.step action).1 = .polled (.admitted (.unsendable h e))) : c.Unreserved action h e := by
  have hstep : Reachable (c.step action).2 := .step action hc
  obtain ⟨id, token, ts, hnew, hadded⟩ := step_of_unsendable hreply
  obtain ⟨hfree, hhandle, hcause⟩ := (c.newAnswer_eq_unsendable_iff id token h e).1 hnew
  have hrecord : (c.step action).2.answers.get? h.id = some { call := h.call, token := token } := by
    rw [hadded]
    exact newAnswer_unsendable hnew
  have hmute : (c.step action).2.Mute h.call :=
    ⟨not_unsent_of_unsendable hstep hrecord, sends_of_unsendable hstep hrecord []⟩
  have hbare : ∀ more id b, (c.after (action :: more)).answers.get? id = some b → b.call = h.call →
      id = h.id ∧ b.Bare := fun more id b hb hown => bare_after hstep hrecord more hb hown
  constructor
  case cause => exact hcause
  case held =>
    rw [hadded]
    exact holds_newAnswer hnew
  case record => exact ⟨token, hrecord⟩
  case bare => exact hbare
  case allocates =>
    intro more size
    exact allocateResults_of_bare (hc.after _) (fun id b hb hown => (hbare more id b hb hown).2) size
  case boots =>
    intro more cap
    exact setBootstrap_of_bare (hc.after _) (fun id b hb hown => (hbare more id b hb hown).2) cap
  case silent => exact fun more => sends_of_unsendable hstep hrecord more
  case exports =>
    intro more x hin
    rcases List.mem_append.1 hin with hnow | hlater
    · refine not_mem_handsOut hc (fun id a ha hown => ?_) action x hnow
      exact absurd (hc.call_lt ha) (by simp [hown, hhandle])
    · obtain ⟨before, action', rest, rfl, hout⟩ := (mem_along_iff ..).1 hlater
      refine not_mem_handsOut (hstep.after before) (fun id b hb hown => ?_) action' x hout
      exact (hbare before id b hb hown).2
  case resolves =>
    intro more d call target p hbooks hstays hresolved
    have hanswers : d.answers = (c.after (action :: more)).answers := congrArg Books.answers hbooks
    obtain ⟨a, ha, hresults⟩ := results_of_resolved hresolved
    refine hstays fun id b hb hown => ?_
    rw [hanswers] at ha hb
    obtain ⟨rfl, hnothing⟩ := hbare more id b hb hown
    obtain rfl := Option.some.inj (ha.symm.trans hb)
    exact hresults hnothing.results
  case taken =>
    intro more token' hstays
    cases ha : (c.after (action :: more)).answers.get? h.id with
    | some a => simp only [Connection.step, newAnswer_of_live _ token' ha]
    | none =>
        refine absurd (fun id b hb hown => ?_) hstays
        obtain ⟨rfl, -⟩ := hbare more id b hb hown
        exact absurd (ha.symm.trans hb) (by simp)
  case leaves =>
    intro more
    have hgone := hmute.forgets_iff hstep hrecord rfl more
    simpa [AnswerState.returnSent, AnswerState.finishReceived] using hgone

/-- Runs after which no return can be reserved: the transport refuses, there is no room, and the connection is
    broken, with a call that is yet to be accepted. -/
def refusingRun : List Action := [.configure (.failReservations (some (.external .overloaded "busy")))]

def crampingRun : List Action := [.configure (.wordLimit (some 4))]

def breakingRun : List Action := [.disconnect (.external .failed "bye"), .poll 0, .accept 7 "call"]

theorem unreserved_after_withholding :
    let refused := (initial {}).after refusingRun
    let cramped := (initial {}).after crampingRun
    let broken := (initial {}).after breakingRun
    let finished := refused.after [.newAnswer 7 "call", .finish 7 true]
    let completed := refused.after [.newAnswer 7 "call", .sendReturn ⟨7, 0⟩ (.ok ()) none, .poll 0]
    ((refused.step (.newAnswer 7 "call")).1 = .admitted (.unsendable ⟨7, 0⟩ (.external .overloaded "busy")) ∧
      refused.Unreserved (.newAnswer 7 "call") ⟨7, 0⟩ (.external .overloaded "busy")) ∧
    ((cramped.step (.newAnswer 7 "call")).1 =
        .admitted (.unsendable ⟨7, 0⟩ (.creatingReturn (.sizeLimit 4))) ∧
      cramped.Unreserved (.newAnswer 7 "call") ⟨7, 0⟩ (.creatingReturn (.sizeLimit 4))) ∧
    ((broken.step (.poll 1)).1 = .polled (.admitted (.unsendable ⟨7, 0⟩ (.external .failed "bye"))) ∧
      broken.Unreserved (.poll 1) ⟨7, 0⟩ (.external .failed "bye")) ∧
    finished.answers.contains 7 = true ∧ (finished.after [.dropHandle ⟨7, 0⟩]).answers.contains 7 = false ∧
    completed.answers.contains 7 = true ∧ (completed.after [.finish 7 false]).answers.contains 7 = false :=
  have hrefused := (Reachable.initial {}).after refusingRun
  have hcramped := (Reachable.initial {}).after crampingRun
  have hbroken := (Reachable.initial {}).after breakingRun
  ⟨⟨by decide +kernel, hrefused.unreserved (.inl (by decide +kernel))⟩,
    ⟨by decide +kernel, hcramped.unreserved (.inl (by decide +kernel))⟩,
    ⟨by decide +kernel, hbroken.unreserved (.inr (by decide +kernel))⟩,
    by decide +kernel, by decide +kernel, by decide +kernel, by decide +kernel⟩

end Connection

end Callee
