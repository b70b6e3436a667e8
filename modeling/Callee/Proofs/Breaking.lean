import Callee.Proofs.Farewells

set_option autoImplicit false

/-! # Breaking a connection

A connection breaks when work that ends it is polled for the first time (`Breaks`). The step that breaks it
notes the error and tells the token of every record to cancel (`broken_step`). No other step changes what
the connection says of itself, and apart from the peer's finish and an order from outside none tells a token
to cancel (`stands_step`). -/

namespace Callee

/-- Whether a task is over, as its poll tells. -/
def TaskPoll.isOver : TaskPoll → Bool
  | .finished | .admitted _ => true
  | _ => false

/-- Whether a task is over, as the reply to its poll tells. -/
def Reply.isOver : Reply → Bool
  | .polled outcome => outcome.isOver
  | _ => false

namespace Connection

theorem isDown_of_link {c c' : Connection} (h : c'.link = c.link) : c'.isDown = c.isDown := by
  unfold isDown
  rw [h]

/-! ## What stands -/

/-- Nothing breaks, and no token is told to cancel. -/
structure Stands (c c' : Connection) : Prop where
  link : c'.link = c.link
  cancellations : c'.cancellations = c.cancellations

namespace Stands

theorem refl (c : Connection) : c.Stands c := ⟨rfl, rfl⟩

theorem trans {c c' c'' : Connection} (h : c.Stands c') (h' : c'.Stands c'') : c.Stands c'' :=
  ⟨h'.link.trans h.link, h'.cancellations.trans h.cancellations⟩

theorem isDown {c c' : Connection} (h : c.Stands c') : c'.isDown = c.isDown := isDown_of_link h.link

end Stands

theorem stands_endReturn (c : Connection) (id : AnswerId) : c.Stands (c.endReturn id) := by
  cases ha : c.answers.get? id with
  | none =>
      rw [c.endReturn_of_none ha]
      exact .refl c
  | some a =>
      obtain ⟨hs, heq⟩ := c.endReturn_shape ha
      rw [heq]
      exact ⟨rfl, rfl⟩

theorem stands_cancelReturn (c : Connection) (id : AnswerId) : c.Stands (c.cancelReturn id) := by
  cases ha : c.answers.get? id with
  | none =>
      rw [c.cancelReturn_of_none ha]
      exact .refl c
  | some a =>
      obtain ⟨hs, heq⟩ := c.cancelReturn_shape ha
      rw [heq]
      exact ⟨rfl, rfl⟩

theorem stands_newAnswer (c : Connection) (id : AnswerId) (token : Token) :
    c.Stands (c.newAnswer id token).2 := by
  cases ha : c.answers.get? id with
  | some a =>
      rw [c.newAnswer_of_live token ha]
      exact .refl c
  | none =>
      obtain ⟨admission, ms, hs, heq, -⟩ := c.newAnswer_shape token ha
      rw [heq]
      exact ⟨rfl, rfl⟩

theorem stands_beginReturn (c : Connection) (id : AnswerId) (result : Except Error Unit) :
    c.Stands (c.beginReturn id result).2 := by
  cases ha : c.answers.get? id with
  | none =>
      rw [c.beginReturn_of_none result ha]
      exact ⟨rfl, rfl⟩
  | some a =>
      obtain ⟨begun, ms, x, hs, p, a', heq, -⟩ := c.beginReturn_shape result ha
      rw [heq]
      exact ⟨rfl, rfl⟩

theorem stands_transmit (c : Connection) (call : Option CallId) (e : Envelope) (gate : Option GateId) :
    c.Stands (c.transmit call e gate).2 := by
  unfold transmit
  split
  · exact .refl c
  · dsimp only
    split <;> exact ⟨rfl, rfl⟩

theorem stands_pollSend (c : Connection) (t : TaskId) (call : Option CallId) (send : SendStage) :
    c.Stands (c.pollSend t call send).2 := by
  cases send with
  | transmitting e gate => exact c.stands_transmit call e gate
  | waiting e =>
      unfold pollSend
      cases hsender : c.sender with
      | some u => exact .refl c
      | none =>
          have hover : c.Stands (c.handOver t call e).2 := ⟨rfl, rfl⟩
          exact hover.trans (stands_transmit _ call e _)

theorem stands_awaitShutdown (c : Connection) (gate : Option GateId) :
    c.Stands (c.awaitShutdown gate).2 := by
  unfold awaitShutdown
  split
  · exact .refl c
  · split
    · unfold reportUnlessGone
      split <;> exact ⟨rfl, rfl⟩
    · exact .refl c

theorem stands_startShutdown (c : Connection) (e : Error) : c.Stands (c.startShutdown e).2 := by
  obtain ⟨hlink, hcancellations⟩ := stands_awaitShutdown
    (({ c with transport := { c.transport with shutdownGate := none } }).emit (.shutDown e))
    c.transport.shutdownGate
  exact ⟨hlink, hcancellations⟩

theorem stands_returnRule : ReturnRule Stands where
  trans := .trans
  stays := .refl
  reports _ _ := ⟨rfl, rfl⟩
  sends c t call send := c.stands_pollSend t (some call) send
  ends := stands_endReturn
  delivers _ _ _ := ⟨rfl, rfl⟩

theorem stands_endRule : EndRule Stands where
  trans := .trans
  stays := .refl
  reports _ _ := ⟨rfl, rfl⟩
  sends c t send := c.stands_pollSend t none send
  orders := stands_startShutdown
  awaits := stands_awaitShutdown

theorem stands_idleRule : IdleRule (fun _ _ => True) Stands where
  trans := .trans
  quiet hbooks hcancellations := ⟨congrArg Books.link hbooks, hcancellations⟩
  works _ hbooks hcancellations := ⟨congrArg Books.link hbooks, hcancellations⟩
  forwards c id call := by
    obtain ⟨cs, ds, es, heq, -⟩ := c.forward_shape id call
    rw [heq]
    exact ⟨rfl, rfl⟩
  acknowledges c name owners := by
    obtain ⟨cs, ds, heq⟩ := c.acknowledgeHeld_shape name owners
    rw [heq]
    exact ⟨rfl, rfl⟩
  ends := stands_endReturn
  admits := stands_newAnswer
  cancels c id _ := c.stands_cancelReturn id
  allocates c id size := by
    rcases c.allocateResults_shape id size with heq | ⟨a, e, ms, -, -, heq⟩ <;> rw [heq] <;>
      exact ⟨rfl, rfl⟩
  boots c id cap := by
    rcases c.setBootstrap_shape id cap with heq | ⟨a, e, ms, -, -, heq⟩ <;> rw [heq] <;>
      exact ⟨rfl, rfl⟩

theorem stands_pollReturn (c : Connection) (t : TaskId) (h : Handle) (stage : ReturnStage) :
    c.Stands (c.pollReturn t h stage).2 := by
  refine Stands.trans ?_ (stands_returnRule.pollReturn c t h stage)
  cases stage with
  | unbegun result => exact c.stands_beginReturn h.id result
  | sending send f => exact .refl c
  | draining w => exact .refl c

/-- What polls nothing, receives no finish and gives no order to cancel leaves everything standing. -/
theorem stands_of_idle (c : Connection) {action : Action} (hpoll : ∀ t, action ≠ .poll t)
    (hcancel : ∀ token, action ≠ .cancel token)
    (hfinish : ∀ id releaseCaps, action ≠ .finish id releaseCaps) : c.Stands (c.step action).2 := by
  have hgives : c.GivesUp fun _ _ => True := ⟨fun _ _ => trivial, fun _ _ _ _ _ => trivial⟩
  cases action with
  | poll t => exact absurd rfl (hpoll t)
  | finish id releaseCaps => exact absurd rfl (hfinish id releaseCaps)
  | setPipeline id name =>
      simp only [step]
      split
      · rcases c.setPipeline_shape id name with heq | ⟨a, -, -, heq⟩ <;> rw [heq] <;> exact ⟨rfl, rfl⟩
      · exact .refl c
  | edit ref change =>
      simp only [step]
      split <;> exact ⟨rfl, rfl⟩
  | _ => exact stands_idleRule.step_of_ne hgives hpoll hcancel (by simp) (by simp)

/-! ## What breaks -/

/-- Looking after the end of a connection breaks it if it is up and the end has yet to begin. -/
theorem broken_pollDisconnect {c : Connection} (hup : c.isDown = false) (t : TaskId) (e : Error) :
    (c.pollDisconnect t e .unbegun).2.link = .broken e ∧
      (c.pollDisconnect t e .unbegun).2.cancellations =
        c.answers.values.map Answer.token ++ c.cancellations := by
  obtain ⟨hlink, hcancellations⟩ := stands_endRule.pollDisconnect c t e .unbegun
  rw [hlink, hcancellations]
  rcases c.beginDisconnect_shape e with ⟨-, hdown⟩ | ⟨-, ms, hs, p, heq, -⟩
  · exact absurd (hup.symm.trans hdown) (by simp)
  · simp only [begunEnd]
    rw [heq]
    exact ⟨rfl, rfl⟩

/-- It breaks nothing if the end has begun or the connection is broken. -/
theorem stands_pollDisconnect (c : Connection) (t : TaskId) (e : Error) (stage : DisconnectStage)
    (h : stage = .unbegun → c.isDown = true) : c.Stands (c.pollDisconnect t e stage).2 := by
  have hend := stands_endRule.pollDisconnect c t e stage
  cases stage with
  | unbegun =>
      have hstays : (c.beginDisconnect e).2 = c := by simp [beginDisconnect, h rfl]
      simp only [begunEnd, hstays] at hend
      exact hend
  | aborting send => exact hend
  | shuttingDown gate => exact hend

/-- What the connection says of itself when its end was looked after. -/
theorem link_pollDisconnect (c : Connection) (t : TaskId) (e : Error) {stage : DisconnectStage}
    (hup : stage = .unbegun → c.isDown = false) :
    (c.pollDisconnect t e stage).2.link = if stage.hasBegun then c.link else .broken e := by
  cases hbegun : stage.hasBegun with
  | true =>
      refine (c.stands_pollDisconnect t e stage fun hstage => ?_).link
      exact absurd hbegun (by simp [hstage, DisconnectStage.hasBegun])
  | false =>
      obtain rfl := DisconnectStage.eq_unbegun hbegun
      exact (broken_pollDisconnect (hup rfl) t e).1

/-- An action breaks the connection: work that ends it is polled, is not told to cancel, and is the first of
    its kind to run. -/
def Breaks (c : Connection) (action : Action) (e : Error) : Prop :=
  c.isDown = false ∧ ∃ t task, action = .poll t ∧ c.tasks.get? t = some task ∧
    task.guard.any c.isCanceled = false ∧ c.endsBy task.work = some (e, .unbegun)

theorem stands_beforeEnd (c : Connection) (work : Work) : c.Stands (c.beforeEnd work) := by
  unfold beforeEnd
  split <;> exact ⟨rfl, rfl⟩

theorem answers_beforeEnd (c : Connection) (work : Work) :
    (c.beforeEnd work).answers = c.answers := by
  unfold beforeEnd
  split <;> rfl

/-- A piece of work that runs leaves everything standing, unless it breaks the connection. -/
theorem stands_run (c : Connection) (t : TaskId) (work : Work)
    (hnot : c.isDown = false → ∀ e, c.endsBy work ≠ some (e, .unbegun)) :
    c.Stands (c.run t work).2 := by
  cases c.runs t work with
  | completes run left =>
      rw [run]
      exact c.stands_pollReturn t _ _
  | admits free run =>
      rw [run]
      exact c.stands_newAnswer _ _
  | refuses stays run =>
      rw [run]
      exact ⟨rfl, rfl⟩
  | @ends work e stage goes run left halts =>
      rw [run]
      have hbefore := c.stands_beforeEnd work
      refine hbefore.trans (stands_pollDisconnect _ t e _ fun hstage => ?_)
      rw [hbefore.isDown]
      cases hdown : c.isDown with
      | true => rfl
      | false =>
          rw [hstage] at goes
          exact absurd goes (hnot hdown e)

theorem broken_run {c : Connection} (hup : c.isDown = false) (t : TaskId) {work : Work} {e : Error}
    (hends : c.endsBy work = some (e, .unbegun)) : (c.run t work).2.link = .broken e ∧
      (c.run t work).2.cancellations = c.answers.values.map Answer.token ++ c.cancellations := by
  cases c.runs t work with
  | completes run left => exact absurd hends (by simp [endsBy, Work.ending?])
  | @admits id token free run =>
      have hfree : c.answers.contains id = false := by simp [Table.contains, free]
      exact absurd hends (by simp [endsBy, hfree])
  | refuses stays run => exact absurd (stays.symm.trans hends) (by simp)
  | @ends work e stage goes run left halts =>
      have hbefore := c.stands_beforeEnd work
      obtain ⟨rfl, rfl⟩ := Prod.mk.inj (Option.some.inj (goes.symm.trans hends))
      rw [run, ← c.answers_beforeEnd work, ← hbefore.cancellations]
      exact broken_pollDisconnect (hbefore.isDown.trans hup) t _

/-! ## Steps -/

/-- A step that breaks the connection notes the error and tells every record's token to cancel. -/
theorem broken_step {c : Connection} {action : Action} {e : Error} (h : c.Breaks action e) :
    (c.step action).2.link = .broken e ∧
      (c.step action).2.cancellations = c.answers.values.map Answer.token ++ c.cancellations := by
  obtain ⟨hup, t, task, rfl, hget, hlive, hends⟩ := h
  obtain ⟨-, ts, heq⟩ := step_poll_of_live hget hlive
  rw [heq]
  exact broken_run hup t hends

/-- Any other step that receives no finish and gives no order to cancel leaves everything standing. -/
theorem stands_step {c : Connection} {action : Action} (hnot : ∀ e, ¬ c.Breaks action e)
    (hcancel : ∀ token, action ≠ .cancel token)
    (hfinish : ∀ id releaseCaps, action ≠ .finish id releaseCaps) : c.Stands (c.step action).2 := by
  cases action with
  | poll t =>
      cases hget : c.tasks.get? t with
      | none =>
          simp only [step, poll, hget]
          exact .refl c
      | some task =>
          cases hlive : task.guard.any c.isCanceled with
          | true =>
              rw [step_poll_of_canceled hget hlive]
              exact stands_idleRule.dropTask ⟨fun _ _ => trivial, fun _ _ _ _ _ => trivial⟩ t
          | false =>
              obtain ⟨-, ts, heq⟩ := step_poll_of_live hget hlive
              have hrun := c.stands_run t task.work fun hup e hends =>
                hnot e ⟨hup, t, task, rfl, hget, hlive, hends⟩
              rw [heq]
              exact ⟨hrun.link, hrun.cancellations⟩
  | _ => exact c.stands_of_idle (by simp) hcancel hfinish

/-- What a step leaves of the connection: it is broken by the step, or says of itself what it said before. -/
theorem link_step (c : Connection) (action : Action) :
    (∃ e, c.Breaks action e ∧ (c.step action).2.link = .broken e) ∨
      (∀ e, ¬ c.Breaks action e) ∧ (c.step action).2.link = c.link := by
  by_cases hbreaks : ∃ e, c.Breaks action e
  · obtain ⟨e, h⟩ := hbreaks
    exact Or.inl ⟨e, h, (broken_step h).1⟩
  · have hnot : ∀ e, ¬ c.Breaks action e := fun e h => hbreaks ⟨e, h⟩
    refine Or.inr ⟨hnot, ?_⟩
    cases action with
    | finish id releaseCaps => exact c.link_finish id releaseCaps
    | cancel token => rfl
    | _ => exact (stands_step hnot (by simp) (by simp)).link

/-- What breaks a connection is what takes it from up to down. -/
theorem breaks_iff (c : Connection) (action : Action) :
    (∃ e, c.Breaks action e) ↔ c.isDown = false ∧ (c.step action).2.isDown = true := by
  constructor
  · rintro ⟨e, h⟩
    refine ⟨h.1, ?_⟩
    unfold isDown
    rw [(broken_step h).1]
  · rintro ⟨hup, hdown⟩
    rcases c.link_step action with ⟨e, h, -⟩ | ⟨-, hlink⟩
    · exact ⟨e, h⟩
    · rw [isDown_of_link hlink, hup] at hdown
      exact absurd hdown (by simp)

/-! ## Steps and the end -/

/-- What a poll does that looks after the end of the connection, which has begun or begins now. `left` is
    what is left of it. -/
structure EndPoll (c : Connection) (t : TaskId) (task : Task) (e : Error) (stage : DisconnectStage)
    (left : Option DisconnectStage) : Prop where
  found : c.tasks.get? t = some task
  live : task.guard.any c.isCanceled = false
  goes : c.endsBy task.work = some (e, stage)
  first : stage = .unbegun → c.isDown = false
  link : (c.step (.poll t)).2.link = if stage.hasBegun then c.link else .broken e
  told : Told c e (stage.shutdownsLeft e) stage.abortsLeft (left, (c.step (.poll t)).2)
  others : ∀ u other, u ≠ t → (c.step (.poll t)).2.tasks.get? u = some other →
    other.work.isEnding = true → c.tasks.get? u = some other
  remains : ∀ task', (c.step (.poll t)).2.tasks.get? t = some task' →
    ∃ next, left = some next ∧ task'.work.ending? = some (e, next)
  isOver : (c.step (.poll t)).1.isOver = true → left = none
  abort : (c.step (.poll t)).2.shutdowns ≠ c.shutdowns → (c.beforeEnd task.work).AbortOver t e stage
  /-- When the order to shut down was given nothing more is told. -/
  silent : stage.shutdownsLeft e = [] → (c.step (.poll t)).2.farewells = c.farewells

/-- What a step has to do with the end of the connection: nothing, or it looks after it. -/
inductive Parts (c : Connection) (action : Action) : Prop
  | aloof (farewells : (c.step action).2.farewells = c.farewells)
      (link : (c.step action).2.link = c.link)
      (tasks : ∀ u task, (c.step action).2.tasks.get? u = some task → task.work.isEnding = true →
        c.tasks.get? u = some task) : Parts c action
  | ends {t : TaskId} {task : Task} {e : Error} {stage : DisconnectStage}
      {left : Option DisconnectStage} (isPoll : action = .poll t)
      (poll : c.EndPoll t task e stage left) : Parts c action

/-- What does not run leaves the end of the connection alone. -/
theorem parts_of_idle {c : Connection} {action : Action}
    (farewells : (c.step action).2.farewells = c.farewells)
    (link : (c.step action).2.link = c.link)
    (idle : ∀ u before work, action = .poll u → c.tasks.get? u = some before →
      before.guard.any c.isCanceled = false → (c.run u before.work).1 = .inr work →
      work.isEnding = false) : c.Parts action := by
  refine .aloof farewells link fun u task hget hending => ?_
  cases c.taskStep action hget with
  | kept before _ => exact before
  | spawned number fresh => exact absurd (fresh.isEnding.symm.trans hending) (by simp)
  | @ran before work isPoll found live left task =>
      subst task
      exact absurd ((idle u before work isPoll found live left).symm.trans hending) (by simp)

/-- What is left of the end that a task looks after is left in its place. -/
theorem remains_of_poll {c : Connection} {t : TaskId} {task task' : Task} {e : Error}
    {left : Option DisconnectStage} (hget : c.tasks.get? t = some task)
    (hlive : task.guard.any c.isCanceled = false)
    (hleft : leftEnd (c.run t task.work).1 = left.map fun stage => (e, stage))
    (hover : (c.run t task.work).1.isLeft = left.isNone)
    (hafter : (c.step (.poll t)).2.tasks.get? t = some task') :
    ∃ next, left = some next ∧ task'.work.ending? = some (e, next) := by
  simp only [step, poll, hget, hlive, Bool.false_eq_true, if_false] at hafter
  split at hafter
  · next work c₁ heq =>
      rw [heq] at hleft hover
      obtain ⟨next, rfl⟩ := Option.isSome_iff_exists.1 (by simpa using hover.symm)
      rw [Table.get?_insert_self] at hafter
      obtain rfl := Option.some.inj hafter
      exact ⟨next, rfl, hleft⟩
  · rw [Table.get?_erase_self] at hafter
    exact absurd hafter (by simp)

/-- A poll leaves the other tasks that look after the end as they are. -/
theorem ending_of_poll {c : Connection} {t u : TaskId} {other : Task} (hu : u ≠ t)
    (hafter : (c.step (.poll t)).2.tasks.get? u = some other) (hending : other.work.isEnding = true) :
    c.tasks.get? u = some other := by
  cases c.taskStep (.poll t) hafter with
  | kept before idle => exact before
  | spawned number fresh => exact absurd (fresh.isEnding.symm.trans hending) (by simp)
  | ran isPoll found live hnext task => exact absurd (Action.poll.inj isPoll).symm hu

/-- A poll that is the last one of a task leaves no work. -/
theorem isLeft_of_isOver {c : Connection} {t : TaskId} {task : Task} (hget : c.tasks.get? t = some task)
    (hlive : task.guard.any c.isCanceled = false) (hover : (c.step (.poll t)).1.isOver = true) :
    (c.run t task.work).1.isLeft = true := by
  rw [(step_poll_of_live hget hlive).1] at hover
  cases hout : (c.run t task.work).1 with
  | inl outcome => rfl
  | inr next =>
      rw [hout] at hover
      exact absurd hover (by simp [Reply.isOver, TaskPoll.isOver])

/-- A poll of work that goes on with the end, unless it comes too late to begin it. -/
theorem endPoll_of_run {c : Connection} {t : TaskId} {task : Task} {e : Error} {stage : DisconnectStage}
    {left : Option DisconnectStage} {d : Connection} (hget : c.tasks.get? t = some task)
    (hlive : task.guard.any c.isCanceled = false) (goes : c.endsBy task.work = some (e, stage))
    (first : stage = .unbegun → c.isDown = false)
    (hpoll : (c.beforeEnd task.work).pollDisconnect t e stage = (left, d))
    (hrun : (c.run t task.work).2 = d)
    (hleft : leftEnd (c.run t task.work).1 = left.map fun stage => (e, stage))
    (hover : (c.run t task.work).1.isLeft = left.isNone) : c.EndPoll t task e stage left := by
  obtain ⟨-, ts, hstep⟩ := step_poll_of_live hget hlive
  rw [hrun] at hstep
  have hbefore := c.stands_beforeEnd task.work
  have hup : stage = .unbegun → (c.beforeEnd task.work).isDown = false :=
    fun hstage => hbefore.isDown.trans (first hstage)
  have hsame : (c.beforeEnd task.work).farewells = c.farewells :=
    farewells_of_dealings (c.dealings_beforeEnd task.work)
  have hfarewells : (c.step (.poll t)).2.farewells = d.farewells := by
    rw [hstep]
    rfl
  have htold := ((c.beforeEnd task.work).told_pollDisconnect t e hup).of_farewells hsame
  rw [hpoll] at htold
  refine ⟨hget, hlive, goes, first, ?_, htold.to_farewells hfarewells,
    fun _ _ hu hafter hending => ending_of_poll hu hafter hending,
    fun _ hafter => remains_of_poll hget hlive hleft hover hafter, fun hlast => ?_, fun hchanged => ?_,
    fun hsettled => ?_⟩
  · have hlink := (c.beforeEnd task.work).link_pollDisconnect t e hup
    rw [hpoll, hbefore.link] at hlink
    rw [hstep]
    exact hlink
  · exact Option.isNone_iff_eq_none.1 (hover.symm.trans (isLeft_of_isOver hget hlive hlast))
  · refine abortOver_of_shutdowns ?_
    rw [hpoll]
    rw [shutdowns_of_farewells hfarewells, ← shutdowns_of_farewells hsame] at hchanged
    exact hchanged
  · have hsilent := (c.beforeEnd task.work).farewells_pollDisconnect t e hsettled
    rw [hpoll] at hsilent
    exact hfarewells.trans (hsilent.trans hsame)

/-- Work that has begun to end the connection goes on with it whenever it is polled. -/
theorem endPoll_of_begun {c : Connection} {t : TaskId} {task : Task} {e : Error}
    {stage : DisconnectStage} (hget : c.tasks.get? t = some task)
    (hlive : task.guard.any c.isCanceled = false) (hending : task.work.ending? = some (e, stage))
    (hbegun : stage.hasBegun = true) : ∃ left, c.EndPoll t task e stage left := by
  obtain ⟨work, guard⟩ := task
  have hlate : stage = .unbegun → c.isDown = false := by
    rintro rfl
    exact absurd hbegun (by simp [DisconnectStage.hasBegun])
  cases c.runs t work with
  | completes run left => exact absurd hending (by simp [Work.ending?])
  | admits free run => exact absurd hending (by simp [Work.ending?])
  | refuses stays run => exact absurd hending (by simp [Work.ending?])
  | @ends work e' stage' goes run left halts =>
      have hgoes : c.endsBy work = some (e, stage) := endsBy_of_ending hending
      obtain ⟨rfl, rfl⟩ := Prod.mk.inj (Option.some.inj (goes.symm.trans hgoes))
      exact ⟨_, endPoll_of_run hget hlive goes hlate rfl run left halts⟩

theorem parts_poll {c : Connection} {t : TaskId} {task : Task} (hget : c.tasks.get? t = some task)
    (hlive : task.guard.any c.isCanceled = false) : c.Parts (.poll t) := by
  obtain ⟨-, ts, hstep⟩ := step_poll_of_live hget hlive
  -- what ends nothing leaves nothing that could
  have haloof : (c.run t task.work).2.farewells = c.farewells → c.Stands (c.run t task.work).2 →
      leftEnd (c.run t task.work).1 = none → c.Parts (.poll t) := by
    intro hfarewells hstands hleft
    refine parts_of_idle ?_ ?_ ?_
    · rw [hstep]
      exact hfarewells
    · rw [hstep]
      exact hstands.link
    · intro u before work hu hbefore _ hnext
      obtain rfl := Action.poll.inj hu
      obtain rfl := Option.some.inj (hbefore.symm.trans hget)
      rw [hnext] at hleft
      exact work.isEnding_of_none hleft
  obtain ⟨work, guard⟩ := task
  cases c.runs t work with
  | @completes h stage run left =>
      refine haloof ?_ ?_ left
      · rw [run]
        exact c.farewells_pollReturn t h stage
      · rw [run]
        exact c.stands_pollReturn t h stage
  | @admits id token free run =>
      refine haloof ?_ ?_ ?_
      all_goals rw [run]
      · exact farewells_of_dealings (c.dealings_newAnswer id token)
      · exact c.stands_newAnswer id token
      · rfl
  | @refuses id token stays run =>
      refine haloof ?_ ?_ ?_
      all_goals rw [run]
      · exact farewells_of_dealings (c.dealings_report _)
      · exact ⟨rfl, rfl⟩
      · rfl
  | @ends work e stage goes run left halts =>
      have hbefore := c.stands_beforeEnd work
      by_cases hidle : stage = .unbegun ∧ c.isDown = true
      · -- the connection came to its end before
        obtain ⟨rfl, hdown⟩ := hidle
        have hnothing : (c.beforeEnd work).pollDisconnect t e .unbegun = (none, c.beforeEnd work) := by
          simp [pollDisconnect, beginDisconnect, hbefore.isDown, hdown]
        rw [hnothing] at run left
        refine haloof ?_ ?_ left
        · rw [run]
          exact farewells_of_dealings (c.dealings_beforeEnd work)
        · rw [run]
          exact hbefore
      · have hfirst : stage = .unbegun → c.isDown = false := by
          intro hstage
          cases hdown : c.isDown with
          | true => exact absurd ⟨hstage, hdown⟩ hidle
          | false => rfl
        exact .ends rfl (endPoll_of_run hget hlive goes hfirst rfl run left halts)

/-- The transport hears of the end of the connection only from what runs. -/
theorem farewells_of_idle {c : Connection} {action : Action}
    (hidle : ∀ t task, action = .poll t → c.tasks.get? t = some task →
      task.guard.any c.isCanceled ≠ false) : (c.step action).2.farewells = c.farewells := by
  cases c.deals action with
  | nothing dealings => exact farewells_of_dealings dealings
  | newCaller fresh step => rw [step]; rfl
  | @forward id call step =>
      obtain ⟨cs, ds, es, heq, hes⟩ := c.forward_shape id call
      have hnone : es.filter Event.isFarewell = [] := by
        refine List.filter_eq_nil_iff.2 fun e he => ?_
        simp [Event.isFarewell_of_isForwarding (hes e he)]
      rw [step, heq]
      unfold farewells
      rw [List.filter_append, hnone]
      rfl
  | @acknowledge name count caller found step =>
      obtain ⟨cs, ds, heq⟩ :=
        c.acknowledgeHeld_shape name (caller.held.take (count.getD caller.held.length))
      rw [step, heq]
      rfl
  | poll found live dealings => exact absurd live (hidle _ _ rfl found)

/-- Every step looks after the end of the connection, or has nothing to do with it. -/
theorem parts (c : Connection) (action : Action) : c.Parts action := by
  by_cases hruns : ∃ t task, action = .poll t ∧ c.tasks.get? t = some task ∧
      task.guard.any c.isCanceled = false
  · obtain ⟨t, task, rfl, hget, hlive⟩ := hruns
    exact parts_poll hget hlive
  · have hidle : ∀ t task, action = .poll t → c.tasks.get? t = some task →
        task.guard.any c.isCanceled ≠ false := by
      intro t task hpoll hget hlive
      exact hruns ⟨t, task, hpoll, hget, hlive⟩
    refine parts_of_idle (farewells_of_idle hidle) ?_ ?_
    · rcases c.link_step action with ⟨e, ⟨-, t, task, hpoll, hget, hlive, -⟩, -⟩ | ⟨-, hlink⟩
      · exact absurd hlive (hidle t task hpoll hget)
      · exact hlink
    · intro u before work hpoll hget hlive _
      exact absurd hlive (hidle u before hpoll hget)

end Connection

end Callee
