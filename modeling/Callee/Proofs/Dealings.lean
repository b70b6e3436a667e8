import Callee.Proofs.Running

set_option autoImplicit false

/-! # Dealings with the far ends

Beside its books a connection has dealings with its two far ends: messages and the order to shut down go
to the transport, and pipelined calls go to their receivers, which acknowledge them. `Dealings` is the
view of that, as `Books` is the view of the rest. Almost every operation leaves the dealings as they
are. Only work that is polled turns to the transport and asks after deliveries, and only a forwarded call
or an acknowledgement reaches the receivers: `Deals` sums this up for a whole step. -/

namespace Callee

/-- Whether an event is about something that was given to a far end, or taken by it. -/
def Event.isDealing : Event → Bool
  | .handedOver .. | .accepted .. | .shutDown _ | .pipelined .. => true
  | _ => false

/-- Whether an event is about a pipelined call. -/
def Event.isForwarding : Event → Bool
  | .pipelined .. | .nested _ => true
  | _ => false

/-- What a connection has to do with the transport and with the receivers of pipelined calls. -/
structure Dealings where
  /-- What was given to the far ends and taken by them, the last in front. -/
  traffic : List Event
  callers : Table CallerName Caller
  deliveries : Table CallId Deliveries

namespace Connection

/-- The dealings of a connection. -/
def dealings (c : Connection) : Dealings where
  traffic := c.history.filter Event.isDealing
  callers := c.callers
  deliveries := c.deliveries

/-! ## Operations that have no dealings -/

@[simp] theorem dealings_report (c : Connection) (e : Error) :
    (c.report e).dealings = c.dealings := rfl

@[simp] theorem dealings_reportAll (c : Connection) (es : List Error) :
    (c.reportAll es).dealings = c.dealings := by
  unfold reportAll
  induction es generalizing c with
  | nil => rfl
  | cons e rest ih => rw [List.foldl_cons, ih, dealings_report]

@[simp] theorem dealings_reportUnlessGone (c : Connection) (e : Error) :
    (c.reportUnlessGone e).dealings = c.dealings := by
  unfold reportUnlessGone
  split <;> rfl

@[simp] theorem dealings_reserve (c : Connection) : c.reserve.2.dealings = c.dealings := by
  unfold reserve
  dsimp only
  split <;> rfl

@[simp] theorem dealings_reserveReturn (c : Connection) (id : AnswerId) :
    (c.reserveReturn id).2.dealings = c.dealings := by
  have hreserve := c.dealings_reserve
  unfold reserveReturn
  split
  · rfl
  · split
    · next heq => rw [heq] at hreserve; exact hreserve
    · next heq =>
        rw [heq] at hreserve
        dsimp only
        split <;> exact hreserve

@[simp] theorem dealings_reserveAbort (c : Connection) (e : Error) :
    (c.reserveAbort e).2.dealings = c.dealings := by
  have hreserve := c.dealings_reserve
  unfold reserveAbort
  split
  · next heq => rw [heq] at hreserve; exact hreserve
  · next heq =>
      rw [heq] at hreserve
      dsimp only
      split <;> exact hreserve

@[simp] theorem dealings_newAnswer (c : Connection) (id : AnswerId) (token : Token) :
    (c.newAnswer id token).2.dealings = c.dealings := by
  have hreserve := c.dealings_reserveReturn id
  unfold newAnswer
  split
  · rfl
  · dsimp only
    split <;> exact hreserve

@[simp] theorem dealings_allocateResults (c : Connection) (id : AnswerId) (size : ObjectSize) :
    (c.allocateResults id size).2.dealings = c.dealings := by
  rcases c.allocateResults_shape id size with h | ⟨a, e, ms, -, -, h⟩ <;> rw [h]
  rfl

@[simp] theorem dealings_setBootstrap (c : Connection) (id : AnswerId) (cap : Capability) :
    (c.setBootstrap id cap).2.dealings = c.dealings := by
  rcases c.setBootstrap_shape id cap with h | ⟨a, e, ms, -, -, h⟩ <;> rw [h]
  rfl

@[simp] theorem dealings_setPipeline (c : Connection) (id : AnswerId) (name : CallerName) :
    (c.setPipeline id name).dealings = c.dealings := by
  rcases c.setPipeline_shape id name with h | ⟨a, -, -, h⟩ <;> rw [h]
  rfl

@[simp] theorem dealings_finish (c : Connection) (id : AnswerId) (releaseCaps : Bool) :
    (c.finish id releaseCaps).dealings = c.dealings := by
  unfold finish
  split
  · rfl
  · dsimp only
    rw [dealings_reportAll]
    split <;> rfl

@[simp] theorem dealings_beginReturn (c : Connection) (id : AnswerId) (result : Except Error Unit) :
    (c.beginReturn id result).2.dealings = c.dealings := by
  unfold beginReturn
  split
  · rfl
  · dsimp only
    split
    · rfl
    · exact dealings_reportAll _ _
    · unfold returnError
      dsimp only
      split <;> rfl

@[simp] theorem dealings_endReturn (c : Connection) (id : AnswerId) :
    (c.endReturn id).dealings = c.dealings := by
  unfold endReturn
  split
  · rfl
  · dsimp only
    split <;> rfl

@[simp] theorem dealings_cancelReturn (c : Connection) (id : AnswerId) :
    (c.cancelReturn id).dealings = c.dealings := by
  unfold cancelReturn
  split
  · rfl
  · dsimp only
    split <;> rfl

@[simp] theorem dealings_beginDisconnect (c : Connection) (e : Error) :
    (c.beginDisconnect e).2.dealings = c.dealings := by
  unfold beginDisconnect
  split
  · rfl
  · exact (c.breakLink e).dealings_reserveAbort e

@[simp] theorem dealings_begunEnd (c : Connection) (e : Error) (stage : DisconnectStage) :
    (c.begunEnd e stage).dealings = c.dealings := by
  cases stage with
  | unbegun => exact c.dealings_beginDisconnect e
  | aborting send => rfl
  | shuttingDown gate => rfl

@[simp] theorem dealings_freeSender (c : Connection) (t : TaskId) :
    (c.freeSender t).dealings = c.dealings := by
  unfold freeSender
  split <;> rfl

@[simp] theorem dealings_dropTask (c : Connection) (t : TaskId) :
    (c.dropTask t).dealings = c.dealings := by
  have hfree : (({ c with tasks := c.tasks.erase t }).freeSender t).dealings = c.dealings :=
    dealings_freeSender _ t
  unfold dropTask
  split
  · rfl
  · dsimp only
    split
    · rw [dealings_cancelReturn, hfree]
    · rw [dealings_endReturn, hfree]
    · exact hfree

/-! ## Messages and the receivers

What has to do with the transport only leaves the receivers of pipelined calls alone. -/

/-- The receivers, and the deliveries of all calls. -/
def receivers (c : Connection) : Table CallerName Caller × Table CallId Deliveries :=
  (c.callers, c.deliveries)

theorem receivers_of_dealings {c c' : Connection} (h : c'.dealings = c.dealings) :
    c'.receivers = c.receivers :=
  congrArg (fun d : Dealings => (d.callers, d.deliveries)) h

@[simp] theorem receivers_transmit (c : Connection) (call : Option CallId) (e : Envelope)
    (gate : Option GateId) : (c.transmit call e gate).2.receivers = c.receivers := by
  unfold transmit
  split
  · rfl
  · dsimp only
    split <;> rfl

@[simp] theorem receivers_pollSend (c : Connection) (t : TaskId) (call : Option CallId)
    (send : SendStage) : (c.pollSend t call send).2.receivers = c.receivers := by
  cases send with
  | transmitting e gate => exact receivers_transmit c call e gate
  | waiting e =>
      simp only [pollSend]
      split
      · rfl
      · exact receivers_transmit _ call e _

@[simp] theorem receivers_awaitShutdown (c : Connection) (gate : Option GateId) :
    (c.awaitShutdown gate).2.receivers = c.receivers := by
  unfold awaitShutdown
  split
  · rfl
  · split
    · exact receivers_of_dealings (c.dealings_reportUnlessGone _)
    · rfl

@[simp] theorem receivers_startShutdown (c : Connection) (e : Error) :
    (c.startShutdown e).2.receivers = c.receivers := by
  unfold startShutdown
  exact receivers_awaitShutdown _ _

theorem receivers_endRule : EndRule fun c c' => c'.receivers = c.receivers where
  trans h h' := h'.trans h
  stays _ := rfl
  reports _ _ := rfl
  sends c t send := c.receivers_pollSend t none send
  orders := receivers_startShutdown
  awaits := receivers_awaitShutdown

@[simp] theorem receivers_pollDisconnect (c : Connection) (t : TaskId) (e : Error)
    (stage : DisconnectStage) : (c.pollDisconnect t e stage).2.receivers = c.receivers :=
  (receivers_endRule.pollDisconnect c t e stage).trans
    (receivers_of_dealings (c.dealings_begunEnd e stage))

@[simp] theorem receivers_pollAccept (c : Connection) (t : TaskId) (stage : AcceptStage) :
    (c.pollAccept t stage).2.receivers = c.receivers := by
  cases stage with
  | refusing e stage =>
      simp only [pollAccept, refuse_snd]
      exact c.receivers_pollDisconnect t e stage
  | unbegun id token =>
      have hnew := receivers_of_dealings (c.dealings_newAnswer id token)
      simp only [pollAccept]
      split
      · next heq =>
          rw [heq] at hnew
          split
          · rw [refuse_snd, receivers_pollDisconnect]
            exact hnew
          · exact hnew
      · next heq => rw [heq] at hnew; exact hnew

/-! ## Pipelined calls -/

theorem foldl_acknowledge_shape (c : Connection) (owners : List CallId) :
    ∃ ds, owners.foldl acknowledge c = { c with deliveries := ds } := by
  induction owners generalizing c with
  | nil => exact ⟨c.deliveries, rfl⟩
  | cons owner rest ih =>
      obtain ⟨ds, heq⟩ := ih (c.acknowledge owner)
      exact ⟨ds, heq⟩

/-- Acknowledgements reach the receivers and the deliveries. -/
theorem acknowledgeHeld_shape (c : Connection) (name : CallerName) (owners : List CallId) :
    ∃ cs ds, c.acknowledgeHeld name owners = { c with callers := cs, deliveries := ds } := by
  obtain ⟨ds, heq⟩ := foldl_acknowledge_shape
    { c with callers := c.callers.modify name fun r => { r with held := r.held.drop owners.length } }
    owners
  exact ⟨_, ds, heq⟩

/-- A forwarded call reaches the receivers and the deliveries, and nothing else comes of it. -/
theorem forwardWithin_shape (depth : Nat) (c : Connection) (id : AnswerId) (call : PipelinedCall) :
    ∃ cs ds es, (forwardWithin depth c id call).2 =
        { c with callers := cs, deliveries := ds, history := es ++ c.history } ∧
      ∀ e ∈ es, e.isForwarding = true := by
  induction depth generalizing c id call with
  | zero =>
      unfold forwardWithin
      split
      · exact ⟨_, _, [], rfl, by simp⟩
      · exact ⟨_, _, [], rfl, by simp⟩
      · next name owner _ =>
          dsimp only
          split
          · exact ⟨_, _, [.pipelined name call], rfl, by simp [Event.isForwarding]⟩
          · contradiction
          · exact ⟨_, _, [.pipelined name call], rfl, by simp [Event.isForwarding]⟩
  | succ depth ih =>
      unfold forwardWithin
      split
      · exact ⟨_, _, [], rfl, by simp⟩
      · exact ⟨_, _, [], rfl, by simp⟩
      · next name owner _ =>
          dsimp only
          split
          · exact ⟨_, _, [.pipelined name call], rfl, by simp [Event.isForwarding]⟩
          · next target less _ hless =>
              obtain rfl : depth = less := Nat.succ.inj hless
              obtain ⟨cs, ds, es, heq, hes⟩ := ih (c.deliver name owner call) target
                { call with questionId := call.questionId - 1 }
              generalize forwardWithin depth (c.deliver name owner call) target _ = r at heq ⊢
              obtain ⟨result, d⟩ := r
              dsimp only at heq
              subst heq
              refine ⟨cs, (({ c with deliveries := ds }).acknowledge owner).deliveries,
                .nested result :: (es ++ [.pipelined name call]), ?_, ?_⟩
              · simp only [acknowledge, putDeliveries, emit, deliver, List.append_assoc,
                  List.cons_append, List.nil_append]
                rfl
              · simp only [List.mem_cons, List.mem_append, List.not_mem_nil, or_false]
                rintro e (rfl | he | rfl)
                · rfl
                · exact hes e he
                · rfl
          · exact ⟨_, _, [.pipelined name call], rfl, by simp [Event.isForwarding]⟩

theorem forward_shape (c : Connection) (id : AnswerId) (call : PipelinedCall) :
    ∃ cs ds es, (c.forward id call).2 =
        { c with callers := cs, deliveries := ds, history := es ++ c.history } ∧
      ∀ e ∈ es, e.isForwarding = true :=
  forwardWithin_shape _ c id call

/-! ## What a step deals in -/

/-- What a step has to do with the far ends. -/
inductive Deals (c : Connection) : Action → Prop
  | nothing {action : Action} (dealings : (c.step action).2.dealings = c.dealings) : Deals c action
  /-- A receiver comes into being. -/
  | newCaller {name : CallerName} {mode : CallerMode} (fresh : c.callers.get? name = none)
      (step : (c.step (.newCaller name mode)).2 =
        { c with callers := c.callers.insert name { mode := mode } }) : Deals c (.newCaller name mode)
  /-- A pipelined call is sent where it has to go. -/
  | forward {id : AnswerId} {call : PipelinedCall}
      (step : (c.step (.forward id call)).2 = (c.forward id call).2) : Deals c (.forward id call)
  /-- A receiver acknowledges some of the deliveries that it has held longest. -/
  | acknowledge {name : CallerName} {count : Option Nat} {caller : Caller}
      (found : c.callers.get? name = some caller)
      (step : (c.step (.acknowledge name count)).2 =
        c.acknowledgeHeld name (caller.held.take (count.getD caller.held.length))) :
      Deals c (.acknowledge name count)
  /-- A piece of work runs. -/
  | poll {t : TaskId} {task : Task} (found : c.tasks.get? t = some task)
      (live : task.guard.any c.isCanceled = false)
      (dealings : (c.step (.poll t)).2.dealings = (c.run t task.work).2.dealings) : Deals c (.poll t)

theorem deals_poll (c : Connection) (t : TaskId) : c.Deals (.poll t) := by
  cases hget : c.tasks.get? t with
  | none =>
      refine .nothing ?_
      simp only [step, poll, hget]
  | some task =>
      cases hlive : task.guard.any c.isCanceled with
      | true =>
          refine .nothing ?_
          simp only [step, poll, hget, hlive, if_true]
          exact c.dealings_dropTask t
      | false =>
          refine .poll hget hlive ?_
          simp only [step, poll, hget, hlive, Bool.false_eq_true, if_false]
          split <;> next heq => rw [heq]; rfl

theorem deals (c : Connection) (action : Action) : c.Deals action := by
  cases action with
  | poll t => exact c.deals_poll t
  | newCaller name mode =>
      cases hget : c.callers.get? name with
      | none =>
          refine .newCaller hget ?_
          simp [step, Table.contains, hget]
      | some caller =>
          refine .nothing ?_
          simp [step, Table.contains, hget]
  | forward id call =>
      refine .forward ?_
      simp only [step]
      split <;> next heq => rw [heq]
  | acknowledge name count =>
      cases hget : c.callers.get? name with
      | none =>
          refine .nothing ?_
          simp only [step, hget]
      | some caller =>
          refine .acknowledge hget ?_
          cases count with
          | none => simp only [step, hget, Option.getD_none, List.take_length]
          | some n => simp only [step, hget, Option.getD_some]
  | newAnswer id token => exact .nothing (c.dealings_newAnswer id token)
  | finish id releaseCaps => exact .nothing (c.dealings_finish id releaseCaps)
  | allocateResults h size =>
      refine .nothing ?_
      have hbuild := c.dealings_allocateResults h.id size
      rw [step_allocateResults_snd]
      split
      · exact hbuild
      · rfl
  | setBootstrap h cap =>
      refine .nothing ?_
      have hbuild := c.dealings_setBootstrap h.id cap
      rw [step_setBootstrap_snd]
      split
      · exact hbuild
      · rfl
  | edit ref change =>
      refine .nothing ?_
      simp only [step]
      split <;> rfl
  | sendReturn h result guard =>
      refine .nothing ?_
      simp only [step]
      split <;> rfl
  | dropHandle h =>
      refine .nothing ?_
      simp only [step]
      split
      · exact dealings_cancelReturn _ h.id
      · rfl
  | setPipeline id name =>
      refine .nothing ?_
      simp only [step]
      split
      · exact c.dealings_setPipeline id name
      · rfl
  | dropTask t =>
      refine .nothing ?_
      simp only [step]
      split
      · exact c.dealings_dropTask t
      · rfl
  | _ => exact .nothing rfl

end Connection

end Callee
