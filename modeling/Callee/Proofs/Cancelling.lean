import Callee.Proofs.Breaking
import Callee.Proofs.Completion
import Mathlib.Data.List.Nodup

set_option autoImplicit false

/-! # Telling calls to cancel

A call is told to cancel by the peer's finish if it is still running, and by the end of the connection if
its record is in the table then (`Stops`). Nothing else does so: `cancellations_step` lists the tokens that a
step tells to cancel, one by one. A finish looks at the record after it has marked it, and tells a call to
cancel only if the record stays; but a call that is running has not sent its return, so its record does.

`Reachable.cancelsRunning` says this of every connection that can come about, and of its runs. -/

namespace Callee

/-- A finish finds a call running unless its results are ready. -/
theorem Answer.isRunning_markFinishReceived {a : Answer}
    (hsent : a.state.returnSent = true → a.state.resultsReady = true) (releaseCaps : Bool) :
    (a.markFinishReceived releaseCaps).isRunning = !a.state.resultsReady := by
  show (!a.state.markFinishReceived.isDone && !a.state.resultsReady) = !a.state.resultsReady
  cases hready : a.state.resultsReady with
  | true => exact Bool.and_false _
  | false =>
      have hunsent : a.state.returnSent = false := by
        cases h : a.state.returnSent with
        | false => rfl
        | true => exact absurd ((hsent h).symm.trans hready) (by simp)
      have hstays : ¬ a.state.markFinishReceived.isDone = true := by
        rw [AnswerState.isDone_iff, AnswerState.returnSent_markFinishReceived, hunsent]
        simp
      simp [hstays]

/-- The tokens that are told to cancel from outside. -/
def Action.ordersCancel : Action → List Token
  | .cancel token => [token]
  | _ => []

namespace Connection

open Books

/-! ## Why a call is told to cancel -/

/-- A step tells the call with this record to cancel: the peer's finish comes while it is running, or the
    connection breaks. -/
def Stops (c : Connection) (action : Action) (id : AnswerId) (a : Answer) : Prop :=
  action.IsFinish id ∧ a.state.resultsReady = false ∨
    c.isDown = false ∧ (c.step action).2.isDown = true

/-- The records whose calls a step tells to cancel, in the order in which it does. -/
def stopped (c : Connection) : Action → List (AnswerId × Answer)
  | .finish id _ =>
      match c.answers.get? id with
      | some a => if a.state.resultsReady then [] else [(id, a)]
      | none => []
  | action => if !c.isDown && (c.step action).2.isDown then c.answers.entries else []

/-- The tokens that a step tells to cancel. -/
def tellsToCancel (c : Connection) (action : Action) : List Token :=
  action.ordersCancel ++ (c.stopped action).map fun entry => entry.2.token

theorem isDown_finish (c : Connection) (id : AnswerId) (releaseCaps : Bool) :
    (c.step (.finish id releaseCaps)).2.isDown = c.isDown :=
  isDown_of_link (c.link_finish id releaseCaps)

/-- A finish stops the call under its id if that is running. -/
theorem stops_finish_iff (c : Connection) (id' : AnswerId) (releaseCaps : Bool) (id : AnswerId)
    (a : Answer) : c.Stops (.finish id' releaseCaps) id a ↔ id' = id ∧ a.state.resultsReady = false := by
  unfold Stops
  rw [isDown_finish]
  simp [Action.IsFinish]

theorem stopped_of_ne {c : Connection} {action : Action}
    (hfinish : ∀ id releaseCaps, action ≠ .finish id releaseCaps) : c.stopped action =
      if !c.isDown && (c.step action).2.isDown then c.answers.entries else [] := by
  cases action with
  | finish id releaseCaps => exact absurd rfl (hfinish id releaseCaps)
  | _ => rfl

theorem mem_stopped_finish_iff (c : Connection) (id' : AnswerId) (releaseCaps : Bool) (id : AnswerId)
    (a : Answer) : (id, a) ∈ c.stopped (.finish id' releaseCaps) ↔
      c.answers.get? id = some a ∧ id' = id ∧ a.state.resultsReady = false := by
  simp only [stopped]
  constructor
  · intro hin
    split at hin
    · next b hb =>
        split at hin
        · exact absurd hin (by simp)
        · next hopen =>
            obtain ⟨rfl, rfl⟩ := Prod.mk.inj (List.mem_singleton.1 hin)
            exact ⟨hb, rfl, by simpa using hopen⟩
    · exact absurd hin (by simp)
  · rintro ⟨ha, rfl, hopen⟩
    simp [ha, hopen]

/-- The records that a step stops are those in the table that it has a reason to stop. -/
theorem mem_stopped_iff (c : Connection) (action : Action) (id : AnswerId) (a : Answer) :
    (id, a) ∈ c.stopped action ↔ c.answers.get? id = some a ∧ c.Stops action id a := by
  by_cases hfinish : ∀ id releaseCaps, action ≠ .finish id releaseCaps
  · have hnot : ¬ action.IsFinish id := fun ⟨releaseCaps, h⟩ => hfinish id releaseCaps h
    rw [stopped_of_ne hfinish, ← Table.mem_entries_iff]
    unfold Stops
    cases c.isDown <;> cases (c.step action).2.isDown <;> simp [hnot]
  · simp only [not_forall, not_not] at hfinish
    obtain ⟨id', releaseCaps, rfl⟩ := hfinish
    rw [mem_stopped_finish_iff, stops_finish_iff]

/-- No step stops a call twice. -/
theorem nodup_stopped (c : Connection) (action : Action) : ((c.stopped action).map Prod.fst).Nodup := by
  by_cases hfinish : ∀ id releaseCaps, action ≠ .finish id releaseCaps
  · rw [stopped_of_ne hfinish]
    split
    · exact c.answers.nodup_keys
    · exact List.nodup_nil
  · simp only [not_forall, not_not] at hfinish
    obtain ⟨id, releaseCaps, rfl⟩ := hfinish
    simp only [stopped]
    split
    · split <;> simp
    · exact List.nodup_nil

/-! ## What a step tells to cancel -/

theorem cancellations_finish {c : Connection} (hc : Reachable c) (id : AnswerId) (releaseCaps : Bool) :
    (c.finish id releaseCaps).cancellations = c.tellsToCancel (.finish id releaseCaps) ++ c.cancellations := by
  cases ha : c.answers.get? id with
  | none =>
      rw [c.finish_of_none releaseCaps ha]
      simp only [tellsToCancel, stopped, ha]
      rfl
  | some a =>
      have hrunning := Answer.isRunning_markFinishReceived (hc.custody.sent_ready (status_of_get? ha))
        releaseCaps
      have hfinish : (c.finish id releaseCaps).cancellations =
          if (a.markFinishReceived releaseCaps).isRunning then a.token :: c.cancellations
          else c.cancellations := by
        simp only [finish, ha, reportAll_shape]
        split <;> rfl
      rw [hfinish, hrunning]
      simp only [tellsToCancel, stopped, ha]
      cases a.state.resultsReady <;> rfl

/-- A step tells just those tokens to cancel, each time anew. -/
theorem cancellations_step {c : Connection} (hc : Reachable c) (action : Action) :
    (c.step action).2.cancellations = c.tellsToCancel action ++ c.cancellations := by
  by_cases hbreaks : ∃ e, c.Breaks action e
  · obtain ⟨e, h⟩ := hbreaks
    obtain ⟨hup, hdown⟩ := (c.breaks_iff action).1 ⟨e, h⟩
    rw [(broken_step h).2]
    obtain ⟨-, t, task, rfl, -⟩ := h
    simp only [tellsToCancel, stopped, hup, hdown]
    simp [Action.ordersCancel, Table.values]
  · have hstays : (!c.isDown && (c.step action).2.isDown) = false := by
      rw [breaks_iff] at hbreaks
      cases hup : c.isDown <;> simp_all
    have hnot : ∀ e, ¬ c.Breaks action e := fun e h => hbreaks ⟨e, h⟩
    cases action with
    | finish id releaseCaps => exact cancellations_finish hc id releaseCaps
    | cancel token =>
        rw [tellsToCancel, stopped_of_ne (by simp), hstays]
        rfl
    | _ =>
        rw [tellsToCancel, stopped_of_ne (by simp), hstays]
        exact (stands_step hnot (by simp) (by simp)).cancellations

/-! ## One call -/

/-- A record whose token no other record in the table has. -/
def OwnsToken (c : Connection) (id : AnswerId) (a : Answer) : Prop :=
  c.answers.get? id = some a ∧
    ∀ id' b, c.answers.get? id' = some b → b.token = a.token → id' = id

theorem OwnsToken.count_stopped {c : Connection} {id : AnswerId} {a : Answer} (h : c.OwnsToken id a)
    (action : Action) : ((c.stopped action).map fun entry => entry.2.token).count a.token =
      (c.stopped action).count (id, a) := by
  obtain ⟨ha, hown⟩ := h
  rw [List.count, List.countP_map, List.count]
  refine List.countP_congr fun entry hin => ?_
  obtain ⟨id', b⟩ := entry
  obtain ⟨hb, -⟩ := (c.mem_stopped_iff ..).1 hin
  simp only [Function.comp_apply, beq_iff_eq, Prod.mk.injEq]
  constructor
  · intro htoken
    obtain rfl := hown id' b hb htoken
    exact ⟨rfl, Option.some.inj (hb.symm.trans ha)⟩
  · rintro ⟨-, rfl⟩
    rfl

/-- The token of one call is told to cancel once if there is a reason to stop the call, and otherwise not at
    all. -/
theorem OwnsToken.count_step {c : Connection} (hc : Reachable c) {id : AnswerId} {a : Answer}
    (h : c.OwnsToken id a) {action : Action} (horder : action ≠ .cancel a.token) :
    (c.step action).2.cancellations.count a.token = c.cancellations.count a.token + 1 ∧
        c.Stops action id a ∨
      (c.step action).2.cancellations.count a.token = c.cancellations.count a.token ∧
        ¬ c.Stops action id a := by
  have hnone : action.ordersCancel.count a.token = 0 := by
    refine List.count_eq_zero_of_not_mem fun hin => ?_
    cases action with
    | cancel token => exact horder (congrArg Action.cancel (List.mem_singleton.1 hin).symm)
    | _ => exact absurd hin (by simp [Action.ordersCancel])
  have hcount : (c.step action).2.cancellations.count a.token =
      (c.stopped action).count (id, a) + c.cancellations.count a.token := by
    rw [cancellations_step hc, List.count_append, tellsToCancel, List.count_append, hnone,
      h.count_stopped, Nat.zero_add]
  rw [hcount]
  by_cases hstops : c.Stops action id a
  · have hin := (c.mem_stopped_iff action id a).2 ⟨h.1, hstops⟩
    have honce : (c.stopped action).Nodup := List.Nodup.of_map Prod.fst (c.nodup_stopped action)
    rw [List.count_eq_one_of_mem honce hin]
    exact Or.inl ⟨Nat.add_comm .., hstops⟩
  · have hout : (id, a) ∉ c.stopped action := fun hin => hstops ((c.mem_stopped_iff action id a).1 hin).2
    rw [List.count_eq_zero_of_not_mem hout]
    exact Or.inr ⟨Nat.zero_add _, hstops⟩

/-- When its results are ready, only the end of the connection stops a call. -/
theorem stops_iff_of_ready (c : Connection) {a : Answer} (hready : a.state.resultsReady = true)
    (action : Action) (id : AnswerId) :
    c.Stops action id a ↔ c.isDown = false ∧ (c.step action).2.isDown = true := by
  simp [Stops, hready]

/-! ## Runs -/

/-- What a run adds to the tokens that were told to cancel is what its steps tell. -/
theorem cancellations_after {c : Connection} (hc : Reachable c) (actions : List Action) :
    (c.after actions).cancellations.Perm (along tellsToCancel c actions ++ c.cancellations) := by
  induction actions generalizing c with
  | nil => exact .refl _
  | cons action rest ih =>
      refine (ih (.step action hc)).trans ?_
      rw [cancellations_step hc, along, ← List.append_assoc]
      exact List.perm_append_comm.append_right _

theorem mem_tellsToCancel_iff (c : Connection) (action : Action) (token : Token) :
    token ∈ c.tellsToCancel action ↔ action = .cancel token ∨
      ∃ id a, c.answers.get? id = some a ∧ a.token = token ∧ c.Stops action id a := by
  have horder : token ∈ action.ordersCancel ↔ action = .cancel token := by
    cases action with
    | cancel other => simp [Action.ordersCancel, eq_comm]
    | _ => simp [Action.ordersCancel]
  rw [tellsToCancel, List.mem_append, horder, List.mem_map]
  refine or_congr_right ?_
  constructor
  · rintro ⟨⟨id, a⟩, hin, rfl⟩
    obtain ⟨ha, hstops⟩ := (c.mem_stopped_iff action id a).1 hin
    exact ⟨id, a, ha, rfl, hstops⟩
  · rintro ⟨id, a, ha, rfl, hstops⟩
    exact ⟨(id, a), (c.mem_stopped_iff action id a).2 ⟨ha, hstops⟩, rfl⟩

/-- When calls are told to cancel. -/
structure CancelsRunning (c : Connection) : Prop where
  /-- A step tells the tokens of the calls to cancel that it stops, and the one that is told from outside. It
      tells each of them anew, and no others. -/
  tells : ∀ action, (c.step action).2.cancellations = c.tellsToCancel action ++ c.cancellations
  /-- It stops a call at most once. -/
  once : ∀ action, ((c.stopped action).map Prod.fst).Nodup
  /-- The calls that it stops have their records in the table: the peer's finish comes for one while its
      results are not ready, or the connection breaks. -/
  stopped : ∀ action id a, (id, a) ∈ c.stopped action ↔ c.answers.get? id = some a ∧
    (action.IsFinish id ∧ a.state.resultsReady = false ∨
      c.isDown = false ∧ (c.step action).2.isDown = true)
  /-- So the token of a call that shares it with no other is told to cancel for these reasons only, and then
      once. -/
  own : ∀ action id a, c.OwnsToken id a → action ≠ .cancel a.token →
    (c.step action).2.cancellations.count a.token = c.cancellations.count a.token + 1 ∧
        c.Stops action id a ∨
      (c.step action).2.cancellations.count a.token = c.cancellations.count a.token ∧
        ¬ c.Stops action id a
  /-- A finish stops the call under its id, if any, and does not break the connection. -/
  finish : ∀ id' releaseCaps id a, c.Stops (.finish id' releaseCaps) id a ↔
    id' = id ∧ a.state.resultsReady = false
  /-- From when its results are ready until its record leaves, no finish stops a call, and nothing else but
      the end of the connection. -/
  ready : ∀ id a, c.answers.get? id = some a → a.state.resultsReady = true →
    ∀ actions id' b action, (c.after actions).answers.get? id' = some b → b.call = a.call →
      ((id', b) ∈ (c.after actions).stopped action ↔
        (c.after actions).isDown = false ∧ ((c.after actions).step action).2.isDown = true)
  /-- Over a run a token is told to cancel just if one of the steps tells it. -/
  run : ∀ actions token, token ∈ (c.after actions).cancellations ↔ token ∈ c.cancellations ∨
    ∃ before action more, actions = before ++ action :: more ∧ (action = .cancel token ∨
      ∃ id a, (c.after before).answers.get? id = some a ∧ a.token = token ∧
        (c.after before).Stops action id a)

/-- On every connection that can come about, a call is told to cancel by a finish that comes while it is
    running and by the end of the connection, and by nothing else. -/
theorem Reachable.cancelsRunning {c : Connection} (hc : Reachable c) : c.CancelsRunning where
  tells := cancellations_step hc
  once := c.nodup_stopped
  stopped := c.mem_stopped_iff
  own _ _ _ howns horder := howns.count_step hc horder
  finish := c.stops_finish_iff
  ready id a ha hready actions id' b action hb hcall := by
    have hstill := (keptBy_after hc actions ha hb hcall).2.resultsReady hready
    rw [mem_stopped_iff, stops_iff_of_ready _ hstill]
    exact and_iff_right hb
  run actions token := by
    rw [(cancellations_after hc actions).mem_iff, List.mem_append, mem_along_iff, or_comm]
    simp only [mem_tellsToCancel_iff]

/-- A run with two finishes for the first call while it is running, two for the second one while its return is
    being sent, and the end of the connection while the records of the other two are in the table; after it
    each of them gets a finish, the fourth call while it is still running. -/
def stoppingRun : List Action :=
  [.newAnswer 1 "first", .newAnswer 2 "second", .newAnswer 3 "third", .newAnswer 4 "fourth",
    .finish 1 false, .finish 1 true, .gateSend, .sendReturn ⟨2, 1⟩ (.ok ()) none, .poll 0, .finish 2 false,
    .finish 2 true, .openGate 0, .poll 0, .sendReturn ⟨3, 2⟩ (.ok ()) none, .poll 1,
    .dropHandle ⟨1, 0⟩, .disconnect (.external .failed "bye"), .poll 2, .finish 4 false, .finish 3 false]

theorem cancelsRunning_after_stopping :
    ((initial {}).after stoppingRun).cancellations = ["fourth", "third", "fourth", "first", "first"] ∧
      ((initial {}).after stoppingRun).CancelsRunning :=
  ⟨by decide +kernel, ((Reachable.initial {}).after stoppingRun).cancelsRunning⟩

end Connection

end Callee
