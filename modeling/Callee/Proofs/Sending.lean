import Callee.Proofs.Dealings

set_option autoImplicit false

/-! # Returns that go out

A return is handed to the transport once, by the task that completes its call, and only while no other
message is being transmitted. `handedReturns` is the record of it, with the call that each return is for;
`handsOver` says what one action adds to that record (`handedReturns_step`). Nothing else that a
connection does hands over a return: not the abort of a connection, and not what is done for a return
before and after. -/

namespace Callee

/-- The return that an event hands over, with its call. -/
def Event.handedReturn? : Event → Option (CallId × Message)
  | .handedOver (some call) m => some (call, m)
  | _ => none

theorem Event.handedReturn?_of_isForwarding {e : Event} (h : e.isForwarding = true) :
    e.handedReturn? = none := by
  cases e with
  | handedOver call m => exact absurd h (by simp [isForwarding])
  | _ => rfl

namespace Connection

/-- The returns that were handed to the transport, each with its call, the last in front. -/
def handedReturns (c : Connection) : List (CallId × Message) :=
  c.history.filterMap Event.handedReturn?

/-- The messages that were handed to the transport as the return of a call, the last in front. -/
def sends (c : Connection) (call : CallId) : List Message :=
  (c.handedReturns.filter fun p => p.1 = call).map Prod.snd

/-! ## What an action hands over -/

/-- The message that leaves for the transport when a message on its way out is looked after. -/
def passes (c : Connection) : SendStage → List Message
  | .waiting e => if c.sender = none then [c.messages.message e] else []
  | .transmitting .. => []

/-- The return that a piece of work has on its way out, once it has begun the one that it is to
    begin. -/
def onItsWay (c : Connection) : Work → Option (CallId × SendStage)
  | .sendReturn h (.unbegun result) =>
      ((c.beginReturn h.id result).1.bind BegunReturn.envelope).map fun e => (h.call, .waiting e)
  | .sendReturn h (.sending send _) => some (h.call, send)
  | _ => none

/-- The return that a piece of work hands over when it runs. -/
def releases (c : Connection) (work : Work) : List (CallId × Message) :=
  match c.onItsWay work with
  | some (call, send) => ((c.begun work).passes send).map fun m => (call, m)
  | none => []

/-- The return that an action hands over, with its call. -/
def handsOver (c : Connection) : Action → List (CallId × Message)
  | .poll t =>
      match c.tasks.get? t with
      | some task => if task.guard.any c.isCanceled then [] else c.releases task.work
      | none => []
  | _ => []

theorem mem_passes_iff (c : Connection) (send : SendStage) (m : Message) :
    m ∈ c.passes send ↔ c.sender = none ∧ ∃ e, send = .waiting e ∧ m = c.messages.message e := by
  cases send with
  | transmitting e gate => simp [passes]
  | waiting e => by_cases hfree : c.sender = none <;> simp [passes, hfree]

theorem sender_begun (c : Connection) (work : Work) : (c.begun work).sender = c.sender := by
  unfold begun
  split
  · next h result =>
      cases ha : c.answers.get? h.id with
      | none =>
          rw [c.beginReturn_of_none result ha]
          rfl
      | some a =>
          obtain ⟨begun, ms, x, hs, p, a', heq, -⟩ := c.beginReturn_shape result ha
          rw [heq]
  · rfl

/-- A return is handed over by polling the task that has it waiting, while the way out is free. -/
theorem mem_handsOver_iff (c : Connection) (action : Action) (call : CallId) (m : Message) :
    (call, m) ∈ c.handsOver action ↔ ∃ t task e, action = .poll t ∧ c.tasks.get? t = some task ∧
      task.guard.any c.isCanceled = false ∧ c.onItsWay task.work = some (call, .waiting e) ∧
      c.sender = none ∧ m = (c.begun task.work).messages.message e := by
  constructor
  · intro hin
    unfold handsOver at hin
    split at hin
    · next t =>
        split at hin
        · next task hget =>
            split at hin
            · exact absurd hin (by simp)
            · next hlive =>
                unfold releases at hin
                split at hin
                · next call' send hway =>
                    obtain ⟨m', hpass, heq⟩ := List.mem_map.1 hin
                    obtain ⟨rfl, rfl⟩ := Prod.mk.inj heq
                    obtain ⟨hfree, e, rfl, hm⟩ := (mem_passes_iff _ send m').1 hpass
                    rw [sender_begun] at hfree
                    exact ⟨t, task, e, rfl, hget, by simpa using hlive, hway, hfree, hm⟩
                · exact absurd hin (by simp)
        · exact absurd hin (by simp)
    · exact absurd hin (by simp)
  · rintro ⟨t, task, e, rfl, hget, hlive, hway, hfree, rfl⟩
    have hsender : (c.begun task.work).sender = none := (c.sender_begun task.work).trans hfree
    simp [handsOver, hget, hlive, releases, hway, passes, hsender]

/-- An action hands over one return at most. -/
theorem length_handsOver_le (c : Connection) (action : Action) : (c.handsOver action).length ≤ 1 := by
  have hpasses : ∀ (d : Connection) (send : SendStage), (d.passes send).length ≤ 1 := by
    intro d send
    cases send with
    | transmitting e gate => exact Nat.zero_le 1
    | waiting e => by_cases hfree : d.sender = none <;> simp [passes, hfree]
  unfold handsOver
  split
  · split
    · split
      · exact Nat.zero_le 1
      · unfold releases
        split
        · rw [List.length_map]
          exact hpasses _ _
        · exact Nat.zero_le 1
    · exact Nat.zero_le 1
  · exact Nat.zero_le 1

/-! ## Events that hand over no return -/

theorem handedReturns_eq_traffic (c : Connection) :
    c.handedReturns = c.dealings.traffic.filterMap Event.handedReturn? := by
  have hsame : (fun e : Event => if e.isDealing = true then e.handedReturn? else none) =
      Event.handedReturn? := by
    funext e
    cases e <;> rfl
  unfold handedReturns dealings
  rw [List.filterMap_filter, hsame]

/-- What leaves the dealings as they are hands over no return. -/
theorem handedReturns_of_dealings {c c' : Connection} (h : c'.dealings = c.dealings) :
    c'.handedReturns = c.handedReturns := by
  rw [handedReturns_eq_traffic, handedReturns_eq_traffic, h]

theorem handedReturns_emit (c : Connection) {e : Event} (h : e.handedReturn? = none) :
    (c.emit e).handedReturns = c.handedReturns :=
  List.filterMap_cons_none h

@[simp] theorem handedReturns_transmit (c : Connection) (call : Option CallId) (e : Envelope)
    (gate : Option GateId) : (c.transmit call e gate).2.handedReturns = c.handedReturns := by
  unfold transmit
  split
  · rfl
  · dsimp only
    split
    · rfl
    · exact handedReturns_emit _ rfl

@[simp] theorem handedReturns_awaitDeliveries (c : Connection) (h : Handle) (w : Wait) :
    (c.awaitDeliveries h w).2.handedReturns = c.handedReturns := rfl

/-! ## Returns on their way out -/

/-- A message goes out as the return of its call. -/
theorem handedReturns_pollSend (c : Connection) (t : TaskId) (call : CallId) (send : SendStage) :
    (c.pollSend t (some call) send).2.handedReturns =
      ((c.passes send).map fun m => (call, m)) ++ c.handedReturns := by
  cases send with
  | transmitting e gate => exact c.handedReturns_transmit _ e gate
  | waiting e =>
      unfold pollSend passes
      cases hsender : c.sender with
      | some u => rfl
      | none => exact handedReturns_transmit _ _ e _

theorem handedReturns_settleReturn (c : Connection) (h : Handle) :
    (c.settleReturn h).2.handedReturns = c.handedReturns := by
  unfold settleReturn
  rw [handedReturns_awaitDeliveries]
  exact handedReturns_of_dealings (c.dealings_endReturn h.id)

theorem handedReturns_awaitReturn (c : Connection) (t : TaskId) (h : Handle) (send : SendStage)
    (f : Bool) : (c.awaitReturn t h send f).2.handedReturns =
      ((c.passes send).map fun m => (h.call, m)) ++ c.handedReturns := by
  have hsend := c.handedReturns_pollSend t h.call send
  unfold awaitReturn
  split
  · next heq => rw [heq] at hsend; exact hsend
  · next heq => rw [heq] at hsend; rw [handedReturns_settleReturn]; exact hsend
  · next heq => rw [heq] at hsend; rw [handedReturns_settleReturn]; exact hsend

theorem handedReturns_pollReturn (c : Connection) (t : TaskId) (h : Handle) (stage : ReturnStage) :
    (c.pollReturn t h stage).2.handedReturns =
      c.releases (.sendReturn h stage) ++ c.handedReturns := by
  cases stage with
  | draining w => rfl
  | sending send f => exact c.handedReturns_awaitReturn t h send f
  | unbegun result =>
      have hbegin := handedReturns_of_dealings (c.dealings_beginReturn h.id result)
      unfold releases onItsWay begun pollReturn
      dsimp only
      split
      · next heq => rw [heq] at hbegin; rw [heq]; exact hbegin
      · next heq =>
          rw [heq] at hbegin
          rw [heq, handedReturns_awaitReturn, hbegin]
          rfl
      · next heq =>
          rw [heq] at hbegin
          rw [heq, handedReturns_settleReturn, hbegin]
          rfl

/-! ## The end of a connection -/

/-- An abort is not a return. -/
theorem handedReturns_pollSend_none (c : Connection) (t : TaskId) (send : SendStage) :
    (c.pollSend t none send).2.handedReturns = c.handedReturns := by
  cases send with
  | transmitting e gate => exact c.handedReturns_transmit _ e gate
  | waiting e =>
      unfold pollSend
      cases hsender : c.sender with
      | some u => rfl
      | none => exact handedReturns_transmit _ _ e _

theorem handedReturns_awaitShutdown (c : Connection) (gate : Option GateId) :
    (c.awaitShutdown gate).2.handedReturns = c.handedReturns := by
  unfold awaitShutdown
  split
  · rfl
  · split
    · exact handedReturns_of_dealings (c.dealings_reportUnlessGone _)
    · rfl

theorem handedReturns_startShutdown (c : Connection) (e : Error) :
    (c.startShutdown e).2.handedReturns = c.handedReturns :=
  (handedReturns_awaitShutdown _ _).trans (handedReturns_emit _ rfl)

theorem handedReturns_endRule : EndRule fun c c' => c'.handedReturns = c.handedReturns where
  trans h h' := h'.trans h
  stays _ := rfl
  reports c e := handedReturns_of_dealings (c.dealings_report e)
  sends := handedReturns_pollSend_none
  orders := handedReturns_startShutdown
  awaits := handedReturns_awaitShutdown

theorem handedReturns_pollDisconnect (c : Connection) (t : TaskId) (e : Error)
    (stage : DisconnectStage) : (c.pollDisconnect t e stage).2.handedReturns = c.handedReturns :=
  (handedReturns_endRule.pollDisconnect c t e stage).trans
    (handedReturns_of_dealings (c.dealings_begunEnd e stage))

theorem handedReturns_pollAccept (c : Connection) (t : TaskId) (stage : AcceptStage) :
    (c.pollAccept t stage).2.handedReturns = c.handedReturns := by
  cases stage with
  | refusing e stage =>
      unfold pollAccept
      rw [refuse_snd]
      exact c.handedReturns_pollDisconnect t e stage
  | unbegun id token =>
      have hnew := handedReturns_of_dealings (c.dealings_newAnswer id token)
      unfold pollAccept
      dsimp only
      split
      · next e c₁ heq =>
          rw [heq] at hnew
          have hreport : (c₁.report e).handedReturns = c.handedReturns :=
            (handedReturns_of_dealings (c₁.dealings_report e)).trans hnew
          split
          · rw [refuse_snd, handedReturns_pollDisconnect]
            exact hreport
          · exact hreport
      · next heq => rw [heq] at hnew; exact hnew

/-! ## Steps -/

theorem handedReturns_run (c : Connection) (t : TaskId) (work : Work) :
    (c.run t work).2.handedReturns = c.releases work ++ c.handedReturns := by
  cases work with
  | sendReturn h stage =>
      have hpoll := c.handedReturns_pollReturn t h stage
      simp only [run]
      split <;> next heq => rw [heq] at hpoll; exact hpoll
  | disconnect e stage =>
      have hpoll := c.handedReturns_pollDisconnect t e stage
      simp only [run]
      split <;> next heq => rw [heq] at hpoll; exact hpoll
  | accept stage =>
      have hpoll := c.handedReturns_pollAccept t stage
      simp only [run]
      split <;> next heq => rw [heq] at hpoll; exact hpoll

theorem handedReturns_poll (c : Connection) (t : TaskId) :
    (c.step (.poll t)).2.handedReturns = c.handsOver (.poll t) ++ c.handedReturns := by
  cases hget : c.tasks.get? t with
  | none => simp [step, poll, handsOver, hget]
  | some task =>
      cases hlive : task.guard.any c.isCanceled with
      | true =>
          have hdrop := handedReturns_of_dealings (c.dealings_dropTask t)
          simpa [step, poll, handsOver, hget, hlive] using hdrop
      | false =>
          have hrun := c.handedReturns_run t task.work
          simp only [step, poll, handsOver, hget, hlive, Bool.false_eq_true, if_false]
          split <;> next heq => rw [heq] at hrun; exact hrun

theorem handedReturns_forward (c : Connection) (id : AnswerId) (call : PipelinedCall) :
    (c.forward id call).2.handedReturns = c.handedReturns := by
  obtain ⟨cs, ds, es, heq, hes⟩ := c.forward_shape id call
  have hnone : es.filterMap Event.handedReturn? = [] :=
    List.filterMap_eq_nil_iff.2 fun e he => Event.handedReturn?_of_isForwarding (hes e he)
  rw [heq]
  unfold handedReturns
  rw [List.filterMap_append, hnone]
  rfl

/-- Exactly what an action hands over is added to the record. -/
theorem handedReturns_step (c : Connection) (action : Action) :
    (c.step action).2.handedReturns = c.handsOver action ++ c.handedReturns := by
  cases c.deals action with
  | poll found live dealings => exact c.handedReturns_poll _
  | newCaller fresh step => rw [step]; rfl
  | forward step => rw [step]; exact c.handedReturns_forward _ _
  | @acknowledge name count caller found step =>
      obtain ⟨cs, ds, heq⟩ :=
        c.acknowledgeHeld_shape name (caller.held.take (count.getD caller.held.length))
      rw [step, heq]
      rfl
  | nothing dealings =>
      cases action with
      | poll t => exact c.handedReturns_poll t
      | _ => exact handedReturns_of_dealings dealings

end Connection

end Callee
