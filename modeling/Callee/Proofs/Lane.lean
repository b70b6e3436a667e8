import Callee.Proofs.EndingOnce

set_option autoImplicit false

/-! # The way out

Any number of returns and the abort of a connection share one way out. `Lane` is the view of it: which task
has it, which messages went in and which the transport accepted. Polling a task that has a message on its
way out waits, hands the message over or goes on with it (`Lane.Polls`), dropping the task makes the way
free if the task had it, and nothing else touches the lane (`laneStep`). -/

namespace Callee

/-! ## The way out -/

/-- A message as the transport is handed it: whose return it is, if it is no abort, and what is in it. -/
abbrev Turn := Option CallId × Option Root

/-- The message that an event hands to the transport. -/
def Event.turn? : Event → Option Turn
  | .handedOver who m => some (who, m.root)
  | _ => none

/-- The message that the transport accepts by an event. -/
def Event.arrival? : Event → Option Turn
  | .accepted who m => some (who, m.root)
  | _ => none

/-- The message that the end of a connection has on its way out. -/
def DisconnectStage.send? : DisconnectStage → Option SendStage
  | .aborting send => some send
  | _ => none

/-- The message that the completion of a call has on its way out. -/
def ReturnStage.send? : ReturnStage → Option SendStage
  | .sending send _ => some send
  | _ => none

/-- The message that a piece of work has on its way out, and whose return it is. -/
def Work.outgoing? : Work → Option (Option CallId × SendStage)
  | .sendReturn h stage => stage.send?.map (some h.call, ·)
  | .accept (.refusing _ stage) => stage.send?.map (none, ·)
  | .disconnect _ stage => stage.send?.map (none, ·)
  | .accept (.unbegun ..) => none

theorem Work.IsFresh.outgoing? {work : Work} (h : work.IsFresh) : work.outgoing? = none := by
  cases work with
  | sendReturn k stage =>
      cases stage with
      | unbegun result => rfl
      | sending send f => exact h.elim
      | draining w => rfl
  | accept stage =>
      cases stage with
      | unbegun id token => rfl
      | refusing e stage => exact h.elim
  | disconnect e stage =>
      cases stage with
      | unbegun => rfl
      | aborting send => exact h.elim
      | shuttingDown gate => rfl

/-- The way out of a connection. -/
structure Lane where
  /-- The task that has it. -/
  sender : Option TaskId
  /-- The messages that were handed to the transport, the last in front. -/
  turns : List Turn
  /-- The messages that it accepted, the last in front. -/
  arrivals : List Turn

namespace Lane

/-- A task takes the way out and hands its message over. -/
def enter (b : Lane) (t : TaskId) (x : Turn) : Lane :=
  { b with sender := some t, turns := x :: b.turns }

/-- The way is free again. -/
def leave (b : Lane) : Lane := { b with sender := none }

/-- The lane after the task with a number was dropped. -/
def without (b : Lane) (t : TaskId) : Lane := if b.sender = some t then b.leave else b

/-- What comes of looking after a message that was handed over: what is left to look after, and the lane. -/
inductive Carries (b : Lane) (who : Option CallId) (e : Envelope) (gate : Option GateId) :
    Option SendStage → Lane → Prop
  | held : Carries b who e gate (some (.transmitting e gate)) b
  | refused : Carries b who e gate none b.leave
  | accepted : Carries b who e gate none { b.leave with arrivals := (who, e.root) :: b.arrivals }

/-- What comes of looking after a message on its way out: it waits for as long as another task has the way,
    and is handed over as soon as none has. -/
inductive Polls (b : Lane) (t : TaskId) (who : Option CallId) :
    SendStage → Option SendStage → Lane → Prop
  | waits {e : Envelope} (busy : b.sender ≠ none) : Polls b t who (.waiting e) (some (.waiting e)) b
  | enters {e : Envelope} {gate : Option GateId} {left : Option SendStage} {b' : Lane}
      (free : b.sender = none) (carries : (b.enter t (who, e.root)).Carries who e gate left b') :
      Polls b t who (.waiting e) left b'
  | goesOn {e : Envelope} {gate : Option GateId} {left : Option SendStage} {b' : Lane}
      (carries : b.Carries who e gate left b') : Polls b t who (.transmitting e gate) left b'

/-- What comes of running a piece of work that has a message on its way out or, if it has none, of running
    another. -/
inductive Runs (b : Lane) (t : TaskId) : Option (Option CallId × SendStage) →
    Option (Option CallId × SendStage) → Lane → Prop
  | nothing : Runs b t none none b
  | polls {who : Option CallId} {send : SendStage} {left : Option SendStage} {b' : Lane}
      (polls : b.Polls t who send left b') : Runs b t (some (who, send)) (left.map (who, ·)) b'

end Lane

namespace Connection

/-- The way out of a connection. -/
def lane (c : Connection) : Lane where
  sender := c.sender
  turns := c.history.filterMap Event.turn?
  arrivals := c.history.filterMap Event.arrival?

/-- The message that a task has on its way out, and whose return it is. -/
def outgoing (c : Connection) (t : TaskId) : Option (Option CallId × SendStage) :=
  (c.tasks.get? t).bind fun task => task.work.outgoing?

/-! ## What leaves the lane alone -/

theorem lane_of_dealings {c c' : Connection} (hsender : c'.sender = c.sender)
    (h : c'.dealings = c.dealings) : c'.lane = c.lane := by
  have htraffic : ∀ {α : Type} (f : Event → Option α), (∀ e, e.isDealing = false → f e = none) →
      ∀ d : Connection, d.history.filterMap f = d.dealings.traffic.filterMap f := by
    intro α f hf d
    unfold dealings
    rw [List.filterMap_filter]
    congr 1
    funext e
    split
    · rfl
    · next hnot => exact hf e (by simpa using hnot)
  have hturn : ∀ e : Event, e.isDealing = false → e.turn? = none := by
    intro e he
    cases e with
    | handedOver who m => exact absurd he (by simp [Event.isDealing])
    | _ => rfl
  have harrival : ∀ e : Event, e.isDealing = false → e.arrival? = none := by
    intro e he
    cases e with
    | accepted who m => exact absurd he (by simp [Event.isDealing])
    | _ => rfl
  unfold lane
  rw [hsender, htraffic _ hturn, htraffic _ hturn c, htraffic _ harrival, htraffic _ harrival c, h]

theorem lane_emit (c : Connection) {e : Event} (hturn : e.turn? = none) (harrival : e.arrival? = none) :
    (c.emit e).lane = c.lane := by
  simp [lane, emit, hturn, harrival]

@[simp] theorem lane_report (c : Connection) (e : Error) : (c.report e).lane = c.lane := rfl

@[simp] theorem lane_reportUnlessGone (c : Connection) (e : Error) :
    (c.reportUnlessGone e).lane = c.lane := by
  unfold reportUnlessGone
  split <;> rfl

theorem lane_endReturn (c : Connection) (id : AnswerId) : (c.endReturn id).lane = c.lane := by
  refine lane_of_dealings ?_ (c.dealings_endReturn id)
  cases hget : c.answers.get? id with
  | none => rw [c.endReturn_of_none hget]
  | some a =>
      obtain ⟨hs, heq⟩ := c.endReturn_shape hget
      rw [heq]
      rfl

theorem lane_cancelReturn (c : Connection) (id : AnswerId) : (c.cancelReturn id).lane = c.lane := by
  refine lane_of_dealings ?_ (c.dealings_cancelReturn id)
  cases hget : c.answers.get? id with
  | none => rw [c.cancelReturn_of_none hget]
  | some a =>
      obtain ⟨hs, heq⟩ := c.cancelReturn_shape hget
      rw [heq]
      rfl

@[simp] theorem lane_awaitShutdown (c : Connection) (gate : Option GateId) :
    (c.awaitShutdown gate).2.lane = c.lane := by
  unfold awaitShutdown
  split
  · rfl
  · split
    · exact c.lane_reportUnlessGone _
    · rfl

@[simp] theorem lane_startShutdown (c : Connection) (e : Error) :
    (c.startShutdown e).2.lane = c.lane := by
  unfold startShutdown
  rw [lane_awaitShutdown]
  exact lane_emit _ rfl rfl

/-! ## Messages on their way out -/

/-- What is left to look after. -/
def SendPoll.left? : SendPoll → Option SendStage
  | .pending send => some send
  | .ended _ => none

theorem lane_transmit (c : Connection) (who : Option CallId) (e : Envelope) (gate : Option GateId) :
    c.lane.Carries who e gate (c.transmit who e gate).1.left? (c.transmit who e gate).2.lane := by
  unfold transmit
  split
  · exact .held
  · dsimp only
    split
    · exact .refused
    · exact .accepted

theorem lane_pollSend (c : Connection) (t : TaskId) (who : Option CallId) (send : SendStage) :
    c.lane.Polls t who send (c.pollSend t who send).1.left? (c.pollSend t who send).2.lane := by
  cases send with
  | transmitting e gate => exact .goesOn (c.lane_transmit who e gate)
  | waiting e =>
      simp only [pollSend]
      cases hsender : c.sender with
      | some u => exact .waits (by simp [lane, hsender])
      | none => exact .enters hsender (lane_transmit (c.handOver t who e).2 who e _)

theorem lane_settleReturn (c : Connection) (h : Handle) : (c.settleReturn h).2.lane = c.lane :=
  c.lane_endReturn h.id

theorem send?_settleReturn (c : Connection) (h : Handle) :
    (c.settleReturn h).1.bind ReturnStage.send? = none := by
  cases hleft : (c.settleReturn h).1 with
  | none => rfl
  | some stage =>
      obtain ⟨w, rfl⟩ := draining_of_awaitDeliveries hleft
      rfl

theorem lane_awaitReturn (c : Connection) (t : TaskId) (h : Handle) (send : SendStage) (f : Bool) :
    c.lane.Polls t (some h.call) send ((c.awaitReturn t h send f).1.bind ReturnStage.send?)
      (c.awaitReturn t h send f).2.lane := by
  have hsend := c.lane_pollSend t (some h.call) send
  unfold awaitReturn
  split
  · next heq => rw [heq] at hsend; exact hsend
  · next heq =>
      rw [heq] at hsend
      rw [send?_settleReturn, lane_settleReturn]
      exact hsend
  · next heq =>
      rw [heq] at hsend
      rw [send?_settleReturn, lane_settleReturn]
      exact hsend

theorem send?_awaitShutdown (c : Connection) (gate : Option GateId) :
    (c.awaitShutdown gate).1.bind DisconnectStage.send? = none := by
  unfold awaitShutdown
  split
  · rfl
  · split <;> rfl

theorem send?_startShutdown (c : Connection) (e : Error) :
    (c.startShutdown e).1.bind DisconnectStage.send? = none :=
  send?_awaitShutdown _ _

theorem lane_awaitAbort (c : Connection) (t : TaskId) (e : Error) (send : SendStage) :
    c.lane.Polls t none send ((c.awaitAbort t e send).1.bind DisconnectStage.send?)
      (c.awaitAbort t e send).2.lane := by
  have hsend := c.lane_pollSend t none send
  unfold awaitAbort
  split
  · next heq => rw [heq] at hsend; exact hsend
  · next heq =>
      rw [heq] at hsend
      rw [send?_startShutdown, lane_startShutdown, lane_reportUnlessGone]
      exact hsend
  · next heq =>
      rw [heq] at hsend
      rw [send?_startShutdown, lane_startShutdown]
      exact hsend

/-! ## Running a piece of work -/

/-- The message that the end of a connection has on its way out, once it has begun if it is to begin. -/
def abortOf (c : Connection) (e : Error) : DisconnectStage → Option SendStage
  | .unbegun => ((c.beginDisconnect e).1.bind Except.toOption).map .waiting
  | stage => stage.send?

/-- The message that a piece of work has on its way out, once it has begun what it is to begin, and whose
    return it is. -/
def offers (c : Connection) : Work → Option (Option CallId × SendStage)
  | .sendReturn h stage => (c.onItsWay (.sendReturn h stage)).map fun p => (some p.1, p.2)
  | work => (c.endsBy work).bind fun p => ((c.beforeEnd work).abortOf p.1 p.2).map (none, ·)

/-- The message that is left on its way out, and whose return it is. -/
def leftOutgoing : TaskPoll ⊕ Work → Option (Option CallId × SendStage) :=
  Sum.elim (fun _ => none) Work.outgoing?

theorem lane_beginReturn (c : Connection) (id : AnswerId) (result : Except Error Unit) :
    (c.beginReturn id result).2.lane = c.lane :=
  lane_of_dealings (c.sender_begun (.sendReturn ⟨id, 0⟩ (.unbegun result))) (c.dealings_beginReturn id result)

theorem lane_beginDisconnect (c : Connection) (e : Error) : (c.beginDisconnect e).2.lane = c.lane := by
  refine lane_of_dealings ?_ (c.dealings_beginDisconnect e)
  rcases c.beginDisconnect_shape e with ⟨heq, -⟩ | ⟨-, ms, hs, p, heq, -⟩ <;> rw [heq]
  rfl

theorem lane_newAnswer (c : Connection) (id : AnswerId) (token : Token) :
    (c.newAnswer id token).2.lane = c.lane := by
  refine lane_of_dealings ?_ (c.dealings_newAnswer id token)
  cases hget : c.answers.get? id with
  | some a => rw [c.newAnswer_of_live token hget]
  | none =>
      obtain ⟨admission, ms, hs, heq, -⟩ := c.newAnswer_shape token hget
      rw [heq]

theorem lane_pollReturn (c : Connection) (t : TaskId) (h : Handle) (stage : ReturnStage) :
    c.lane.Runs t (c.offers (.sendReturn h stage))
      (((c.pollReturn t h stage).1.bind ReturnStage.send?).map (some h.call, ·))
      (c.pollReturn t h stage).2.lane := by
  cases stage with
  | draining w =>
      have hnone : (c.awaitDeliveries h w).1.bind ReturnStage.send? = none := by
        cases hleft : (c.awaitDeliveries h w).1 with
        | none => rfl
        | some stage =>
            obtain ⟨w', rfl⟩ := draining_of_awaitDeliveries hleft
            rfl
      simp only [pollReturn, hnone]
      exact .nothing
  | sending send f => exact .polls (c.lane_awaitReturn t h send f)
  | unbegun result =>
      have hlane := c.lane_beginReturn h.id result
      simp only [pollReturn, offers, onItsWay]
      split
      · next heq =>
          rw [heq] at hlane ⊢
          dsimp only at hlane ⊢
          rw [hlane]
          exact .nothing
      · next e f c₁ heq =>
          rw [heq] at hlane ⊢
          dsimp only at hlane
          rw [← hlane]
          exact .polls (c₁.lane_awaitReturn t h (.waiting e) f)
      · next f c₁ heq =>
          rw [heq] at hlane ⊢
          dsimp only at hlane ⊢
          rw [send?_settleReturn, lane_settleReturn, hlane]
          exact .nothing

theorem lane_pollDisconnect (c : Connection) (t : TaskId) (e : Error) (stage : DisconnectStage) :
    c.lane.Runs t ((c.abortOf e stage).map (none, ·))
      (((c.pollDisconnect t e stage).1.bind DisconnectStage.send?).map (none, ·))
      (c.pollDisconnect t e stage).2.lane := by
  cases stage with
  | aborting send => exact .polls (c.lane_awaitAbort t e send)
  | shuttingDown gate =>
      simp only [pollDisconnect, send?_awaitShutdown, lane_awaitShutdown]
      exact .nothing
  | unbegun =>
      have hlane := c.lane_beginDisconnect e
      simp only [pollDisconnect, abortOf]
      split
      · next heq =>
          rw [heq] at hlane ⊢
          dsimp only at hlane ⊢
          rw [hlane]
          exact .nothing
      · next envelope c₁ heq =>
          rw [heq] at hlane ⊢
          dsimp only at hlane
          rw [← hlane]
          exact .polls (c₁.lane_awaitAbort t e (.waiting envelope))
      · next x c₁ heq =>
          rw [heq] at hlane ⊢
          dsimp only at hlane ⊢
          rw [send?_startShutdown, lane_startShutdown, lane_report, hlane]
          exact .nothing

/-- The message that work which ends a connection has on its way out is that of the end. -/
theorem leftOutgoing_of_leftEnd {r : TaskPoll ⊕ Work} {e : Error} {left : Option DisconnectStage}
    (hleft : leftEnd r = left.map fun stage => (e, stage)) (halts : r.isLeft = left.isNone) :
    leftOutgoing r = (left.bind DisconnectStage.send?).map (none, ·) := by
  cases left with
  | none =>
      cases r with
      | inl outcome => rfl
      | inr work => exact absurd halts (by simp)
  | some stage =>
      cases r with
      | inl outcome => exact absurd halts (by simp)
      | inr work =>
          have hending : work.ending? = some (e, stage) := hleft
          unfold Work.ending? at hending
          split at hending
          · obtain ⟨rfl, rfl⟩ := Prod.mk.inj (Option.some.inj hending)
            rfl
          · obtain ⟨rfl, rfl⟩ := Prod.mk.inj (Option.some.inj hending)
            rfl
          · exact absurd hending (by simp)

/-- What running a piece of work does to the lane. -/
theorem lane_run (c : Connection) (t : TaskId) (work : Work) :
    c.lane.Runs t (c.offers work) (leftOutgoing (c.run t work).1) (c.run t work).2.lane := by
  cases c.runs t work with
  | @completes h stage run left =>
      have hpoll := c.lane_pollReturn t h stage
      rw [run]
      simp only [Connection.run]
      split <;> next heq => rw [heq] at hpoll ⊢; exact hpoll
  | @admits id token free run =>
      have hoffers : c.offers (.accept (.unbegun id token)) = none := by
        simp [offers, endsBy, Table.contains, free]
      rw [run, hoffers, lane_newAnswer]
      exact .nothing
  | @refuses id token stays run =>
      have hoffers : c.offers (.accept (.unbegun id token)) = none := by simp [offers, stays]
      rw [run, hoffers]
      exact .nothing
  | @ends _ e stage goes run left halts =>
      have hlane : (c.beforeEnd work).lane = c.lane := by
        unfold beforeEnd
        split <;> rfl
      have hoffers : c.offers work = ((c.beforeEnd work).abortOf e stage).map (none, ·) := by
        cases work with
        | sendReturn h stage => exact absurd goes (by simp [endsBy, Work.ending?])
        | _ => simp only [offers, goes, Option.bind_some]
      rw [run, hoffers, leftOutgoing_of_leftEnd left halts, ← hlane]
      exact lane_pollDisconnect _ t e stage

/-! ## What a step does to the lane -/

/-- Whether an action drops a task: it is dropped as it is, or polled when its token was told to cancel. -/
def Drops (c : Connection) (t : TaskId) : Action → Prop
  | .dropTask u => u = t
  | .poll u => u = t ∧ ∃ task, c.tasks.get? t = some task ∧ task.guard.any c.isCanceled = true
  | _ => False

/-- What a step does to the lane, and to the messages that tasks have on their way out. -/
inductive LaneStep (c : Connection) (action : Action) : Prop
  | idle (lane : (c.step action).2.lane = c.lane)
      (outgoing : ∀ u, (c.step action).2.outgoing u = c.outgoing u) : LaneStep c action
  | drops {t : TaskId} (drops : c.Drops t action) (lane : (c.step action).2.lane = c.lane.without t)
      (gone : (c.step action).2.outgoing t = none)
      (others : ∀ u, u ≠ t → (c.step action).2.outgoing u = c.outgoing u) : LaneStep c action
  | runs {t : TaskId} {task : Task} (isPoll : action = .poll t) (found : c.tasks.get? t = some task)
      (live : task.guard.any c.isCanceled = false)
      (run : c.lane.Runs t (c.offers task.work) ((c.step action).2.outgoing t) (c.step action).2.lane)
      (others : ∀ u, u ≠ t → (c.step action).2.outgoing u = c.outgoing u) : LaneStep c action

theorem outgoing_of_get? {c : Connection} {t : TaskId} {task : Task} (h : c.tasks.get? t = some task) :
    c.outgoing t = task.work.outgoing? := by
  simp [outgoing, h]

theorem outgoing_of_erase {c c' : Connection} {t : TaskId} (h : c'.tasks = c.tasks.erase t) (u : TaskId) :
    c'.outgoing u = if u = t then none else c.outgoing u := by
  unfold outgoing
  rw [h, Table.get?_erase]
  split <;> rfl

theorem outgoing_of_insert {c c' : Connection} {t : TaskId} (task : Task)
    (h : c'.tasks = c.tasks.insert t task) (u : TaskId) :
    c'.outgoing u = if u = t then task.work.outgoing? else c.outgoing u := by
  unfold outgoing
  rw [h, Table.get?_insert]
  split <;> rfl

theorem lane_freeSender (c : Connection) (t : TaskId) : (c.freeSender t).lane = c.lane.without t := by
  unfold freeSender Lane.without
  by_cases hsender : c.sender = some t
  · rw [if_pos hsender, if_pos (show c.lane.sender = some t from hsender)]
    rfl
  · rw [if_neg hsender, if_neg (show c.lane.sender ≠ some t from hsender)]

theorem lane_dropTask (c : Connection) {t : TaskId} {task : Task} (hget : c.tasks.get? t = some task) :
    (c.dropTask t).lane = c.lane.without t := by
  have hfree : (({ c with tasks := c.tasks.erase t }).freeSender t).lane = c.lane.without t :=
    lane_freeSender _ t
  unfold dropTask
  rw [hget]
  dsimp only
  split
  · rw [lane_cancelReturn, hfree]
  · rw [lane_endReturn, hfree]
  · exact hfree

theorem step_of_drops {c : Connection} {action : Action} {t : TaskId} {task : Task}
    (hget : c.tasks.get? t = some task) (hdrops : c.Drops t action) :
    (c.step action).2 = c.dropTask t := by
  cases action with
  | dropTask u =>
      obtain rfl : u = t := hdrops
      exact congrArg Prod.snd (step_dropTask_of_get? hget)
  | poll u =>
      obtain ⟨rfl, task', hget', hcancel⟩ := hdrops
      exact congrArg Prod.snd (step_poll_of_canceled hget' hcancel)
  | _ => exact hdrops.elim

theorem live_of_not_drops {c : Connection} {t : TaskId} {task : Task}
    (hget : c.tasks.get? t = some task) (hnot : ¬ c.Drops t (.poll t)) :
    task.guard.any c.isCanceled = false := by
  cases hcancel : task.guard.any c.isCanceled with
  | false => rfl
  | true => exact absurd ⟨rfl, task, hget, hcancel⟩ hnot

/-- Dropping a task takes its message with it. -/
theorem lane_step_of_drops {c : Connection} {action : Action} {t : TaskId} {task : Task}
    (hget : c.tasks.get? t = some task) (hdrops : c.Drops t action) :
    (c.step action).2.lane = c.lane.without t ∧ (c.step action).2.outgoing t = none ∧
      ∀ u, u ≠ t → (c.step action).2.outgoing u = c.outgoing u := by
  have hout := outgoing_of_erase (c.tasks_dropTask hget)
  rw [step_of_drops hget hdrops]
  refine ⟨c.lane_dropTask hget, ?_, fun u hu => ?_⟩
  · rw [hout, if_pos rfl]
  · rw [hout, if_neg hu]

/-- Polling a task runs its work. -/
theorem runs_step_poll {c : Connection} {t : TaskId} {task : Task} (hget : c.tasks.get? t = some task)
    (hlive : task.guard.any c.isCanceled = false) :
    c.lane.Runs t (c.offers task.work) ((c.step (.poll t)).2.outgoing t) (c.step (.poll t)).2.lane ∧
      ∀ u, u ≠ t → (c.step (.poll t)).2.outgoing u = c.outgoing u := by
  have hrun := c.lane_run t task.work
  have htasks := (c.run_tasks t task.work).1
  have hout : ∀ u, (c.step (.poll t)).2.outgoing u =
      if u = t then leftOutgoing (c.run t task.work).1 else c.outgoing u := by
    simp only [step, poll, hget, hlive, Bool.false_eq_true, if_false]
    split
    · next work c₁ heq =>
        rw [heq] at htasks ⊢
        dsimp only at htasks
        exact outgoing_of_insert { task with work := work } (by rw [← htasks])
    · next outcome c₁ heq =>
        rw [heq] at htasks ⊢
        dsimp only at htasks
        exact outgoing_of_erase (by rw [← htasks])
  obtain ⟨-, ts, hstep⟩ := step_poll_of_live hget hlive
  refine ⟨?_, fun u hu => ?_⟩
  · rw [hout, if_pos rfl, hstep]
    exact hrun
  · rw [hout, if_neg hu]

/-- Where nothing is polled and no task is dropped, nothing happens to the lane. -/
theorem lane_step_of_idle (c : Connection) {action : Action} (hpoll : ∀ t, action ≠ .poll t)
    (hdrop : ∀ t, action ≠ .dropTask t) : (c.step action).2.lane = c.lane := by
  cases action with
  | poll t => exact absurd rfl (hpoll t)
  | dropTask t => exact absurd rfl (hdrop t)
  | newAnswer id token => exact c.lane_newAnswer id token
  | allocateResults h size =>
      have hbuild : (c.allocateResults h.id size).2.lane = c.lane := by
        rcases c.allocateResults_shape h.id size with heq | ⟨a, e, ms, -, -, heq⟩ <;> rw [heq]
        rfl
      rw [step_allocateResults_snd]
      split
      · exact hbuild
      · rfl
  | setBootstrap h cap =>
      have hbuild : (c.setBootstrap h.id cap).2.lane = c.lane := by
        rcases c.setBootstrap_shape h.id cap with heq | ⟨a, e, ms, -, -, heq⟩ <;> rw [heq]
        rfl
      rw [step_setBootstrap_snd]
      split
      · exact hbuild
      · rfl
  | edit ref change =>
      simp only [step]
      split <;> rfl
  | sendReturn h result guard =>
      simp only [step]
      split <;> rfl
  | dropHandle h =>
      simp only [step]
      split
      · exact lane_cancelReturn _ h.id
      · rfl
  | newCaller name mode =>
      simp only [step]
      split <;> rfl
  | setPipeline id name =>
      simp only [step]
      split
      · rcases c.setPipeline_shape id name with heq | ⟨a, -, -, heq⟩ <;> rw [heq]
        rfl
      · rfl
  | forward id call =>
      have hforward : (c.forward id call).2.lane = c.lane := by
        obtain ⟨cs, ds, es, heq, hes⟩ := c.forward_shape id call
        have hnone : ∀ {α : Type} (f : Event → Option α),
            (∀ e : Event, e.isForwarding = true → f e = none) → es.filterMap f = [] :=
          fun f hf => List.filterMap_eq_nil_iff.2 fun e he => hf e (hes e he)
        have hturns : es.filterMap Event.turn? = [] := hnone _ fun e he => by
          cases e <;> first | rfl | exact absurd he (by simp [Event.isForwarding])
        have harrivals : es.filterMap Event.arrival? = [] := hnone _ fun e he => by
          cases e <;> first | rfl | exact absurd he (by simp [Event.isForwarding])
        rw [heq]
        simp only [lane, List.filterMap_append, hturns, harrivals, List.nil_append]
      rw [step_forward_snd]
      exact hforward
  | acknowledge name count =>
      simp only [step]
      split
      · rfl
      · have hack : ∀ owners, (c.acknowledgeHeld name owners).lane = c.lane := by
          intro owners
          obtain ⟨cs, ds, heq⟩ := c.acknowledgeHeld_shape name owners
          rw [heq]
          rfl
        exact hack _
  | finish id releaseCaps =>
      refine lane_of_dealings ?_ (c.dealings_finish id releaseCaps)
      simp only [step]
      cases hget : c.answers.get? id with
      | none => rw [c.finish_of_none releaseCaps hget]; rfl
      | some a =>
          obtain ⟨hs, ts, heq⟩ := c.finish_shape releaseCaps hget
          rw [heq]
          rfl
  | _ => rfl

theorem laneStep {c : Connection} (hc : Reachable c) (action : Action) : c.LaneStep action := by
  have hidle : (∀ t, action ≠ .poll t) → (∀ t, action ≠ .dropTask t) → c.LaneStep action := by
    intro hpoll hdrop
    refine .idle (c.lane_step_of_idle hpoll hdrop) fun u => ?_
    rcases c.tasks_step_of_idle hpoll hdrop with htasks | ⟨task, htask, htasks⟩
    · simp only [outgoing, htasks]
    · -- the number of a new task was not in use
      have hnew : c.outgoing c.nextTask = none := by
        cases hget : c.tasks.get? c.nextTask with
        | none => simp [outgoing, hget]
        | some task => exact absurd (hc.tasksBelow _ task hget) (Nat.lt_irrefl _)
      rw [outgoing_of_insert _ htasks]
      split
      · next hu => rw [hu, hnew]; exact (Action.isFresh_of_task? htask).outgoing?
      · rfl
  have hdrop : ∀ t task, c.tasks.get? t = some task → c.Drops t action → c.LaneStep action := by
    intro t task hget hdrops
    obtain ⟨hlane, hgone, hothers⟩ := lane_step_of_drops hget hdrops
    exact .drops hdrops hlane hgone hothers
  cases action with
  | poll t =>
      cases hget : c.tasks.get? t with
      | none =>
          have hstay : (c.step (.poll t)).2 = c := by simp [step, poll, hget]
          exact .idle (by rw [hstay]) fun u => by rw [hstay]
      | some task =>
          cases hlive : task.guard.any c.isCanceled with
          | true => exact hdrop t task hget ⟨rfl, task, hget, hlive⟩
          | false =>
              obtain ⟨hrun, hothers⟩ := runs_step_poll hget hlive
              exact .runs rfl hget hlive hrun hothers
  | dropTask t =>
      cases hget : c.tasks.get? t with
      | none =>
          have hstay : (c.step (.dropTask t)).2 = c := by simp [step, Table.contains, hget]
          exact .idle (by rw [hstay]) fun u => by rw [hstay]
      | some task => exact hdrop t task hget rfl
  | _ => exact hidle (by simp) (by simp)

end Connection

end Callee
