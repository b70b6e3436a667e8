import Callee.Proofs.Books

set_option autoImplicit false

/-! # Rules for runs

A step calls a few operations, in an order that depends on what comes of each. What every operation
does to a connection the whole step does, as long as it can be chained. Two operations stand apart,
since only they move references between us and the peer: the beginning of a return and the peer's
finish. A step calls at most one of them and calls it first; `transfer` is the connection after that.

A relation `R` between a connection and a later one is a `StepRule` if the other operations have it. Then
it holds from `transfer` to the end of every step. It is a `FullRule` if the two have it as well. Then it
holds across every step, and a property that it carries on holds of all connections that can come about
(`FullRule.reachable`). A `PlainRule` says nothing of the action that sends pipelined calls to a receiver,
and holds across every other step. A `SteadyRule` says nothing of writes to structs either, and may take
something for granted of the answers whose calls are given up.

These rules are about the books of a connection. What they do not hold for the books may still hold for
some of the operations: a `ReturnRule` is about the completion of a call, an `EndRule` about the end of a
connection, and an `IdleRule` about the steps in which nothing is polled. -/

namespace Callee.Connection

/-- What the completion of a call calls, once it has begun. -/
structure ReturnRule (R : Connection → Connection → Prop) : Prop where
  trans : ∀ {c c' c'' : Connection}, R c c' → R c' c'' → R c c''
  stays : ∀ c, R c c
  reports : ∀ c e, R c (c.report e)
  sends : ∀ c t call send, R c (c.pollSend t (some call) send).2
  ends : ∀ c id, R c (c.endReturn id)
  delivers : ∀ c h w, R c (c.awaitDeliveries h w).2

/-- What the end of a connection calls, once it has begun. -/
structure EndRule (R : Connection → Connection → Prop) : Prop where
  trans : ∀ {c c' c'' : Connection}, R c c' → R c' c'' → R c c''
  stays : ∀ c, R c c
  reports : ∀ c e, R c (c.report e)
  sends : ∀ c t send, R c (c.pollSend t none send).2
  orders : ∀ c e, R c (c.startShutdown e).2
  awaits : ∀ c gate, R c (c.awaitShutdown gate).2

/-- What a piece of work calls while it runs, once it has begun. -/
structure RunRule (R : Connection → Connection → Prop) : Prop where
  trans : ∀ {c c' c'' : Connection}, R c c' → R c' c'' → R c c''
  /-- Whatever is done outside the books. -/
  quiet : ∀ {c c' : Connection}, c'.books = c.books → R c c'
  ends : ∀ c id, R c (c.endReturn id)
  admits : ∀ c id token, R c (c.newAnswer id token).2
  breaks : ∀ c e, R c (c.beginDisconnect e).2

/-- Every task was there before or has a number given out since. -/
def TasksFrom (c c' : Connection) : Prop :=
  c.nextTask ≤ c'.nextTask ∧ ∀ t task, c'.tasks.get? t = some task →
    (∃ before, c.tasks.get? t = some before) ∨ t < c'.nextTask

/-- What is known of the answers of the calls that may yet be given up. -/
structure GivesUp (P : Table AnswerId Answer → AnswerId → Prop) (c : Connection) : Prop where
  alone : ∀ h, c.holds h = true → P c.answers h.id
  tasked : ∀ t h result guard, c.tasks.get? t = some ⟨.sendReturn h (.unbegun result), guard⟩ →
    P c.answers h.id

/-- What a step calls when nothing is polled and no token is told to cancel, but for the peer's finish, the
    installation of a receiver and writes through handles to structs. Only a call of whose answer `P` is
    known is given up. -/
structure IdleRule (P : Table AnswerId Answer → AnswerId → Prop)
    (R : Connection → Connection → Prop) : Prop where
  trans : ∀ {c c' c'' : Connection}, R c c' → R c' c'' → R c c''
  /-- Whatever is done outside the books and tells no token to cancel. -/
  quiet : ∀ {c c' : Connection}, c'.books = c.books → c'.cancellations = c.cancellations → R c c'
  /-- Handles and tasks change hands. -/
  works : ∀ {c c' : Connection}, c.TasksFrom c' →
    { c'.books with handles := c.handles, tasks := c.tasks, nextTask := c.nextTask } = c.books →
    c'.cancellations = c.cancellations → R c c'
  forwards : ∀ c id call, R c (c.forward id call).2
  acknowledges : ∀ c name owners, R c (c.acknowledgeHeld name owners)
  ends : ∀ c id, R c (c.endReturn id)
  admits : ∀ c id token, R c (c.newAnswer id token).2
  cancels : ∀ c id, P c.answers id → R c (c.cancelReturn id)
  allocates : ∀ c id size, R c (c.allocateResults id size).2
  boots : ∀ c id cap, R c (c.setBootstrap id cap).2

/-- What a step calls, but for the beginning of a return, the peer's finish, the installation of a receiver
    and writes through handles to structs. Only a call of whose answer `P` is known is given up. -/
structure SteadyRule (P : Table AnswerId Answer → AnswerId → Prop)
    (R : Connection → Connection → Prop) : Prop extends RunRule R where
  /-- Handles and tasks change hands. -/
  works : ∀ {c c' : Connection}, c.TasksFrom c' →
    { c'.books with handles := c.handles, tasks := c.tasks, nextTask := c.nextTask } = c.books →
    R c c'
  cancels : ∀ c id, P c.answers id → R c (c.cancelReturn id)
  allocates : ∀ c id size, R c (c.allocateResults id size).2
  boots : ∀ c id cap, R c (c.setBootstrap id cap).2

/-- What a step calls, but for the beginning of a return, the peer's finish and the installation of a
    receiver. -/
structure PlainRule (R : Connection → Connection → Prop) : Prop extends RunRule R where
  /-- Handles and tasks change hands. -/
  works : ∀ {c c' : Connection}, c.TasksFrom c' →
    { c'.books with handles := c.handles, tasks := c.tasks, nextTask := c.nextTask } = c.books →
    R c c'
  cancels : ∀ c id, R c (c.cancelReturn id)
  allocates : ∀ c id size, R c (c.allocateResults id size).2
  boots : ∀ c id cap, R c (c.setBootstrap id cap).2
  edits : ∀ (c : Connection) ref change, R c { c with messages := (c.messages.edit ref change).2 }

/-- What a step calls, but for the beginning of a return and the peer's finish. -/
structure StepRule (R : Connection → Connection → Prop) : Prop extends PlainRule R where
  routes : ∀ c id name, R c (c.setPipeline id name)

/-- All that a step calls. -/
structure FullRule (R : Connection → Connection → Prop) : Prop extends StepRule R where
  begins : ∀ c id result, R c (c.beginReturn id result).2
  finishes : ∀ c id releaseCaps, R c (c.finish id releaseCaps)

/-! ## What moves references -/

/-- The connection once a piece of work has begun the return that it is to begin, if any. -/
def begun (c : Connection) : Work → Connection
  | .sendReturn h (.unbegun result) => (c.beginReturn h.id result).2
  | _ => c

/-- The connection once the end that is to begin has begun. -/
def begunEnd (c : Connection) (e : Error) : DisconnectStage → Connection
  | .unbegun => (c.beginDisconnect e).2
  | _ => c

/-- The connection once a step has begun the return or received the finish that it is about, if any. -/
def transfer (c : Connection) : Action → Connection
  | .poll t =>
      match c.tasks.get? t with
      | some task => if task.guard.any c.isCanceled then c else c.begun task.work
      | none => c
  | .finish id releaseCaps => c.finish id releaseCaps
  | _ => c

theorem transfer_cases {P : Connection → Prop} (c : Connection) (action : Action) (stays : P c)
    (begins : ∀ id result, P (c.beginReturn id result).2)
    (finishes : ∀ id releaseCaps, P (c.finish id releaseCaps)) : P (c.transfer action) := by
  unfold transfer
  split
  · split
    · split
      · exact stays
      · unfold begun
        split
        · exact begins _ _
        · exact stays
    · exact stays
  · exact finishes _ _
  · exact stays

/-! ## Running a piece of work -/

theorem refuse_snd (e : Error) (r : Option DisconnectStage × Connection) :
    (refuse e r).2 = r.2 := by
  obtain ⟨stage, c⟩ := r
  cases stage <;> rfl

section

variable {R : Connection → Connection → Prop}

theorem ReturnRule.settleReturn (rule : ReturnRule R) (c : Connection) (h : Handle) :
    R c (c.settleReturn h).2 :=
  rule.trans (rule.ends c h.id) (rule.delivers _ h .unasked)

theorem ReturnRule.awaitReturn (rule : ReturnRule R) (c : Connection) (t : TaskId) (h : Handle)
    (send : SendStage) (finishReceived : Bool) : R c (c.awaitReturn t h send finishReceived).2 := by
  have hsend : R c (c.pollSend t (some h.call) send).2 := rule.sends c t h.call send
  unfold Connection.awaitReturn
  split
  · next heq => rw [heq] at hsend; exact hsend
  · next heq =>
      rw [heq] at hsend
      exact rule.trans (rule.trans hsend (rule.reports _ _)) (rule.settleReturn _ h)
  · next heq => rw [heq] at hsend; exact rule.trans hsend (rule.settleReturn _ h)

theorem ReturnRule.pollReturn (rule : ReturnRule R) (c : Connection) (t : TaskId) (h : Handle)
    (stage : ReturnStage) : R (c.begun (.sendReturn h stage)) (c.pollReturn t h stage).2 := by
  cases stage with
  | draining w => exact rule.delivers c h w
  | sending send f => exact rule.awaitReturn c t h send f
  | unbegun result =>
      simp only [begun, Connection.pollReturn]
      split
      · next heq => rw [heq]; exact rule.stays _
      · next heq => rw [heq]; exact rule.awaitReturn ..
      · next heq => rw [heq]; exact rule.settleReturn ..

theorem EndRule.reportUnlessGone (rule : EndRule R) (c : Connection) (e : Error) :
    R c (c.reportUnlessGone e) := by
  unfold Connection.reportUnlessGone
  split
  · exact rule.stays c
  · exact rule.reports c e

theorem EndRule.awaitAbort (rule : EndRule R) (c : Connection) (t : TaskId) (e : Error)
    (send : SendStage) : R c (c.awaitAbort t e send).2 := by
  have hsend : R c (c.pollSend t none send).2 := rule.sends c t send
  unfold Connection.awaitAbort
  split
  · next heq => rw [heq] at hsend; exact hsend
  · next heq =>
      rw [heq] at hsend
      exact rule.trans (rule.trans hsend (rule.reportUnlessGone _ _)) (rule.orders _ e)
  · next heq => rw [heq] at hsend; exact rule.trans hsend (rule.orders _ e)

theorem EndRule.pollDisconnect (rule : EndRule R) (c : Connection) (t : TaskId) (e : Error)
    (stage : DisconnectStage) : R (c.begunEnd e stage) (c.pollDisconnect t e stage).2 := by
  cases stage with
  | aborting send => exact rule.awaitAbort c t e send
  | shuttingDown gate => exact rule.awaits c gate
  | unbegun =>
      simp only [begunEnd, Connection.pollDisconnect]
      split
      · next heq => rw [heq]; exact rule.stays _
      · next heq => rw [heq]; exact rule.awaitAbort ..
      · next heq => rw [heq]; exact rule.trans (rule.reports _ _) (rule.orders _ e)

end

namespace RunRule

variable {R : Connection → Connection → Prop}

theorem returns (rule : RunRule R) : ReturnRule R where
  trans := rule.trans
  stays _ := rule.quiet rfl
  reports c e := rule.quiet (c.books_report e)
  sends c t call send := rule.quiet (c.books_pollSend t call send)
  ends := rule.ends
  delivers c h w := rule.quiet (c.books_awaitDeliveries h w)

theorem parts (rule : RunRule R) : EndRule R where
  trans := rule.trans
  stays _ := rule.quiet rfl
  reports c e := rule.quiet (c.books_report e)
  sends c t send := rule.quiet (c.books_pollSend t none send)
  orders c e := rule.quiet (c.books_startShutdown e)
  awaits c gate := rule.quiet (c.books_awaitShutdown gate)

theorem pollDisconnect (rule : RunRule R) (c : Connection) (t : TaskId) (e : Error)
    (stage : DisconnectStage) : R c (c.pollDisconnect t e stage).2 := by
  refine rule.trans ?_ (rule.parts.pollDisconnect c t e stage)
  cases stage with
  | unbegun => exact rule.breaks c e
  | aborting send => exact rule.quiet rfl
  | shuttingDown gate => exact rule.quiet rfl

theorem pollAccept (rule : RunRule R) (c : Connection) (t : TaskId) (stage : AcceptStage) :
    R c (c.pollAccept t stage).2 := by
  cases stage with
  | refusing e stage =>
      simp only [Connection.pollAccept, refuse_snd]
      exact rule.pollDisconnect c t e stage
  | unbegun id token =>
      have hnew := rule.admits c id token
      simp only [Connection.pollAccept]
      split
      · next e c₁ heq =>
          rw [heq] at hnew
          have hreport : R c (c₁.report e) := rule.trans hnew (rule.quiet (books_report ..))
          split
          · rw [refuse_snd]
            exact rule.trans hreport (rule.pollDisconnect _ t e .unbegun)
          · exact hreport
      · next heq => rw [heq] at hnew; exact hnew

/-- What work calls it does from its beginning to where it has to wait. -/
theorem run (rule : RunRule R) (c : Connection) (t : TaskId) (work : Work) :
    R (c.begun work) (c.run t work).2 := by
  cases work with
  | sendReturn h stage =>
      have hpoll := rule.returns.pollReturn c t h stage
      simp only [Connection.run]
      split <;> next heq => rw [heq] at hpoll; exact hpoll
  | disconnect e stage =>
      have hpoll : R c (c.pollDisconnect t e stage).2 := rule.pollDisconnect c t e stage
      simp only [Connection.run]
      split <;> next heq => rw [heq] at hpoll; exact hpoll
  | accept stage =>
      have hpoll : R c (c.pollAccept t stage).2 := rule.pollAccept c t stage
      simp only [Connection.run]
      split <;> next heq => rw [heq] at hpoll; exact hpoll

end RunRule

/-- What work calls does not touch the table of tasks. -/
theorem tasks_rule : RunRule fun c c' => c'.tasks = c.tasks ∧ c'.nextTask = c.nextTask where
  trans h h' := ⟨h'.1.trans h.1, h'.2.trans h.2⟩
  quiet h := ⟨congrArg Books.tasks h, congrArg Books.nextTask h⟩
  ends c id := by
    cases h : c.answers.get? id with
    | none =>
        rw [c.endReturn_of_none h]
        exact ⟨rfl, rfl⟩
    | some a =>
        obtain ⟨hs, heq⟩ := c.endReturn_shape h
        rw [heq]
        exact ⟨rfl, rfl⟩
  admits c id token := by
    cases h : c.answers.get? id with
    | some a =>
        rw [c.newAnswer_of_live token h]
        exact ⟨rfl, rfl⟩
    | none =>
        obtain ⟨admission, ms, hs, heq, -⟩ := c.newAnswer_shape token h
        rw [heq]
        exact ⟨rfl, rfl⟩
  breaks c e := by
    rcases c.beginDisconnect_shape e with ⟨h, -⟩ | ⟨-, ms, hs, p, h, -⟩
    · rw [h]
      exact ⟨rfl, rfl⟩
    · rw [h]
      exact ⟨rfl, rfl⟩

theorem tasks_beginReturn (c : Connection) (id : AnswerId) (result : Except Error Unit) :
    (c.beginReturn id result).2.tasks = c.tasks ∧
      (c.beginReturn id result).2.nextTask = c.nextTask := by
  cases h : c.answers.get? id with
  | none =>
      rw [c.beginReturn_of_none result h]
      exact ⟨rfl, rfl⟩
  | some a =>
      obtain ⟨begun, ms, x, hs, p, a', heq, -⟩ := c.beginReturn_shape result h
      rw [heq]
      exact ⟨rfl, rfl⟩

theorem tasks_cancelReturn (c : Connection) (id : AnswerId) :
    (c.cancelReturn id).tasks = c.tasks ∧ (c.cancelReturn id).nextTask = c.nextTask := by
  cases h : c.answers.get? id with
  | none =>
      rw [c.cancelReturn_of_none h]
      exact ⟨rfl, rfl⟩
  | some a =>
      obtain ⟨hs, heq⟩ := c.cancelReturn_shape h
      rw [heq]
      exact ⟨rfl, rfl⟩

theorem tasks_begun (c : Connection) (work : Work) :
    (c.begun work).tasks = c.tasks ∧ (c.begun work).nextTask = c.nextTask := by
  unfold begun
  split
  · exact c.tasks_beginReturn _ _
  · exact ⟨rfl, rfl⟩

theorem run_tasks (c : Connection) (t : TaskId) (work : Work) :
    (c.run t work).2.tasks = c.tasks ∧ (c.run t work).2.nextTask = c.nextTask := by
  obtain ⟨htasks, hnext⟩ := tasks_rule.run c t work
  obtain ⟨hbegun, hbegun'⟩ := c.tasks_begun work
  exact ⟨htasks.trans hbegun, hnext.trans hbegun'⟩

/-! ## Steps -/

theorem tasksFrom_of_erase {c c' : Connection} (t : TaskId) (h : c'.tasks = c.tasks.erase t)
    (hnext : c'.nextTask = c.nextTask) : c.TasksFrom c' := by
  refine ⟨Nat.le_of_eq hnext.symm, fun u task hget => Or.inl ?_⟩
  rw [h, Table.get?_erase] at hget
  split at hget
  · exact absurd hget (by simp)
  · exact ⟨task, hget⟩

theorem tasksFrom_of_insert {c c' : Connection} (t : TaskId) (task : Task)
    (h : c'.tasks = c.tasks.insert t task) (hnext : c.nextTask ≤ c'.nextTask)
    (ht : (∃ before, c.tasks.get? t = some before) ∨ t < c'.nextTask) : c.TasksFrom c' := by
  refine ⟨hnext, fun u found hget => ?_⟩
  rw [h, Table.get?_insert] at hget
  split at hget
  · next hu => rw [hu]; exact ht
  · exact Or.inl ⟨found, hget⟩

theorem cancellations_freeSender (c : Connection) (t : TaskId) :
    (c.freeSender t).cancellations = c.cancellations := by
  unfold freeSender
  split <;> rfl

namespace IdleRule

variable {P : Table AnswerId Answer → AnswerId → Prop} {R : Connection → Connection → Prop}

theorem spawn (rule : IdleRule P R) (c : Connection) (work : Work) (guard : Option Token) :
    R c (c.spawn work guard).2 :=
  rule.works (tasksFrom_of_insert c.nextTask _ rfl (Nat.le_succ _) (Or.inr (Nat.lt_succ_self _))) rfl rfl

theorem dropTask (rule : IdleRule P R) {c : Connection} (hP : c.GivesUp P) (t : TaskId) :
    R c (c.dropTask t) := by
  unfold Connection.dropTask
  split
  · exact rule.quiet rfl rfl
  · next task hget =>
      have herase : R c { c with tasks := c.tasks.erase t } :=
        rule.works (tasksFrom_of_erase t rfl rfl) rfl rfl
      have hfree : R c (({ c with tasks := c.tasks.erase t }).freeSender t) :=
        rule.trans herase (rule.quiet (books_freeSender _ t) (cancellations_freeSender _ t))
      have hanswers : (({ c with tasks := c.tasks.erase t }).freeSender t).answers = c.answers :=
        congrArg Books.answers (books_freeSender _ t)
      dsimp only
      split
      · next h result hwork =>
          have hknown := hP.tasked t h result task.guard (hget.trans (congrArg _ (by rw [← hwork])))
          rw [← hanswers] at hknown
          exact rule.trans hfree (rule.cancels _ _ hknown)
      · exact rule.trans hfree (rule.ends _ _)
      · exact hfree

/-- What holds across every other operation holds across every step, from `transfer` on, that polls nothing,
    tells no token to cancel, installs no receiver and writes to no struct. -/
theorem step_of_ne (rule : IdleRule P R) {c : Connection} (hP : c.GivesUp P) {action : Action}
    (hpoll : ∀ t, action ≠ .poll t) (hcancel : ∀ token, action ≠ .cancel token)
    (hne : ∀ id name, action ≠ .setPipeline id name) (hedit : ∀ ref change, action ≠ .edit ref change) :
    R (c.transfer action) (c.step action).2 := by
  have stay : R c c := rule.quiet rfl rfl
  have work : ∀ hs, R c { c with handles := hs } := fun hs =>
    rule.works ⟨Nat.le_refl _, fun _ task h => Or.inl ⟨task, h⟩⟩ rfl rfl
  cases action with
  | poll t => exact absurd rfl (hpoll t)
  | cancel token => exact absurd rfl (hcancel token)
  | setPipeline id name => exact absurd rfl (hne id name)
  | edit ref change => exact absurd rfl (hedit ref change)
  | newAnswer id token => exact rule.admits c id token
  | accept id token => exact rule.spawn c _ none
  | disconnect e => exact rule.spawn c _ none
  | allocateResults h size =>
      have hbuild := rule.allocates c h.id size
      rw [step_allocateResults_snd]
      simp only [transfer]
      split
      · exact hbuild
      · exact stay
  | setBootstrap h cap =>
      have hbuild := rule.boots c h.id cap
      rw [step_setBootstrap_snd]
      simp only [transfer]
      split
      · exact hbuild
      · exact stay
  | sendReturn h result guard =>
      simp only [Connection.step, transfer]
      split
      · exact rule.trans (work _) (rule.spawn _ _ guard)
      · exact stay
  | dropHandle h =>
      simp only [Connection.step, transfer]
      split
      · next hheld => exact rule.trans (work _) (rule.cancels _ h.id (hP.alone h hheld))
      · exact stay
  | newCaller name mode =>
      simp only [Connection.step, transfer]
      split
      · exact stay
      · exact rule.quiet rfl rfl
  | forward id call =>
      have hforward := rule.forwards c id call
      rw [step_forward_snd]
      simp only [transfer]
      exact hforward
  | acknowledge name count =>
      simp only [Connection.step, transfer]
      split
      · exact stay
      · exact rule.acknowledges c name _
  | finish id releaseCaps => exact rule.quiet rfl rfl
  | dropTask t =>
      simp only [Connection.step, transfer]
      split
      · exact rule.dropTask hP t
      · exact stay
  | configure setting => exact rule.quiet rfl rfl
  | gateSend => exact rule.quiet rfl rfl
  | gateShutdown => exact rule.quiet rfl rfl
  | openGate g => exact rule.quiet rfl rfl
  | takeSent => exact rule.quiet rfl rfl

end IdleRule

namespace SteadyRule

variable {P : Table AnswerId Answer → AnswerId → Prop} {R : Connection → Connection → Prop}

/-- What follows from a relation that has the rule has it too, if it can be chained. -/
theorem mono {S : Connection → Connection → Prop} (rule : SteadyRule P R)
    (trans : ∀ {c c' c'' : Connection}, S c c' → S c' c'' → S c c'')
    (h : ∀ {c c' : Connection}, R c c' → S c c') : SteadyRule P S where
  trans := trans
  quiet hbooks := h (rule.quiet hbooks)
  works htasks hbooks := h (rule.works htasks hbooks)
  ends c id := h (rule.ends c id)
  admits c id token := h (rule.admits c id token)
  breaks c e := h (rule.breaks c e)
  cancels c id known := h (rule.cancels c id known)
  allocates c id size := h (rule.allocates c id size)
  boots c id cap := h (rule.boots c id cap)

theorem idle (rule : SteadyRule P R) : IdleRule P R where
  trans := rule.trans
  quiet h _ := rule.quiet h
  works h hbooks _ := rule.works h hbooks
  forwards c id call := rule.quiet (c.books_forward id call)
  acknowledges c name owners := rule.quiet (books_acknowledgeHeld c name owners)
  ends := rule.ends
  admits := rule.admits
  cancels := rule.cancels
  allocates := rule.allocates
  boots := rule.boots

theorem poll (rule : SteadyRule P R) {c : Connection} (hP : c.GivesUp P) (t : TaskId) :
    R (c.transfer (.poll t)) (c.poll t).2 := by
  cases hget : c.tasks.get? t with
  | none =>
      simp only [Connection.poll, transfer, hget]
      exact rule.quiet rfl
  | some task =>
      cases hcancel : task.guard.any c.isCanceled with
      | true =>
          simp only [Connection.poll, transfer, hget, hcancel, if_true]
          exact rule.idle.dropTask hP t
      | false =>
          have hrun := rule.run c t task.work
          have htasks := (c.run_tasks t task.work).1
          simp only [Connection.poll, transfer, hget, hcancel, Bool.false_eq_true, if_false]
          split
          · -- what is left of the work takes its place
            next work c₁ heq =>
              rw [heq] at hrun htasks
              have hin : ∃ before, c₁.tasks.get? t = some before := by
                rw [htasks]
                exact ⟨task, hget⟩
              exact rule.trans hrun
                (rule.works (tasksFrom_of_insert t _ rfl (Nat.le_refl _) (Or.inl hin)) rfl)
          · next outcome c₁ heq =>
              rw [heq] at hrun
              exact rule.trans hrun (rule.works (tasksFrom_of_erase t rfl rfl) rfl)

/-- What holds across every other operation holds across every step from `transfer` on, unless it is one
    that installs a receiver or writes to a struct. -/
theorem step_of_ne (rule : SteadyRule P R) {c : Connection} (hP : c.GivesUp P) {action : Action}
    (hne : ∀ id name, action ≠ .setPipeline id name) (hedit : ∀ ref change, action ≠ .edit ref change) :
    R (c.transfer action) (c.step action).2 := by
  cases action with
  | poll t => exact rule.poll hP t
  | cancel token => exact rule.quiet rfl
  | _ => exact rule.idle.step_of_ne hP (by simp) (by simp) hne hedit

end SteadyRule

namespace PlainRule

variable {R : Connection → Connection → Prop}

/-- A rule that knows nothing of the answers of the calls that are given up. -/
theorem steady (rule : PlainRule R) : SteadyRule (fun _ _ => True) R where
  toRunRule := rule.toRunRule
  works := rule.works
  cancels c id _ := rule.cancels c id
  allocates := rule.allocates
  boots := rule.boots

/-- What holds across every other operation holds across every step from `transfer` on, unless it is the
    one that installs a receiver. -/
theorem step_of_ne (rule : PlainRule R) (c : Connection) {action : Action}
    (hne : ∀ id name, action ≠ .setPipeline id name) : R (c.transfer action) (c.step action).2 := by
  by_cases hedit : ∃ ref change, action = .edit ref change
  · obtain ⟨ref, change, rfl⟩ := hedit
    have hwrite := rule.edits c ref change
    simp only [Connection.step, transfer]
    split <;> next heq => rw [heq] at hwrite; exact hwrite
  · have hother : ∀ ref change, action ≠ .edit ref change := fun ref change h => hedit ⟨ref, change, h⟩
    exact rule.steady.step_of_ne ⟨fun _ _ => trivial, fun _ _ _ _ _ => trivial⟩ hne hother

end PlainRule

/-- What follows from a relation that has the rule has it too, if it can be chained. -/
theorem StepRule.mono {R S : Connection → Connection → Prop} (rule : StepRule R)
    (trans : ∀ {c c' c'' : Connection}, S c c' → S c' c'' → S c c'')
    (h : ∀ {c c' : Connection}, R c c' → S c c') : StepRule S :=
  have steady : SteadyRule (fun _ _ => True) S := rule.steady.mono trans h
  { steady with
    cancels := fun c id => h (rule.cancels c id)
    edits := fun c ref change => h (rule.edits c ref change)
    routes := fun c id name => h (rule.routes c id name) }

/-- What holds across every other operation holds across every step from `transfer` on. -/
theorem StepRule.step {R : Connection → Connection → Prop} (rule : StepRule R) (c : Connection)
    (action : Action) : R (c.transfer action) (c.step action).2 := by
  cases action with
  | setPipeline id name =>
      simp only [Connection.step, transfer]
      split
      · exact rule.routes c id name
      · exact rule.quiet rfl
  | _ => exact rule.toPlainRule.step_of_ne c (by simp)

namespace FullRule

variable {R : Connection → Connection → Prop}

theorem transfer (rule : FullRule R) (c : Connection) (action : Action) :
    R c (c.transfer action) :=
  c.transfer_cases action (rule.quiet rfl) (rule.begins c) (rule.finishes c)

/-- What holds across every operation holds across every step. -/
theorem step (rule : FullRule R) (c : Connection) (action : Action) : R c (c.step action).2 :=
  rule.trans (rule.transfer c action) (rule.toStepRule.step c action)

/-- What every operation carries on, and what holds at first, holds of every connection that can come
    about. -/
theorem reachable {I : Connection → Prop} (rule : FullRule fun c c' => I c → I c')
    (first : ∀ options, I (Connection.initial options)) {c : Connection} (hc : Reachable c) : I c := by
  induction hc with
  | initial options => exact first options
  | step action _ ih => exact rule.step _ action ih

end FullRule

/-! ## Numbers of tasks -/

/-- No number of a task to come is in use. -/
def TasksBelow (c : Connection) : Prop := ∀ t task, c.tasks.get? t = some task → t < c.nextTask

theorem TasksBelow.mono {c c' : Connection} (hc : c.TasksBelow) (h : c.TasksFrom c') :
    c'.TasksBelow := by
  intro t task hget
  rcases h.2 t task hget with ⟨before, hbefore⟩ | hlt
  · exact Nat.lt_of_lt_of_le (hc t before hbefore) h.1
  · exact hlt

theorem TasksFrom.trans {c c' c'' : Connection} (h : c.TasksFrom c') (h' : c'.TasksFrom c'') :
    c.TasksFrom c'' := by
  refine ⟨Nat.le_trans h.1 h'.1, fun t task hget => ?_⟩
  rcases h'.2 t task hget with ⟨before, hbefore⟩ | hlt
  · exact (h.2 t before hbefore).imp_right fun hlt => Nat.lt_of_lt_of_le hlt h'.1
  · exact Or.inr hlt

theorem tasksFrom_of_eq {c c' : Connection} (h : c'.tasks = c.tasks ∧ c'.nextTask = c.nextTask) :
    c.TasksFrom c' := by
  unfold TasksFrom
  rw [h.1, h.2]
  exact ⟨Nat.le_refl _, fun _ task hget => Or.inl ⟨task, hget⟩⟩

theorem tasksFrom_rule : FullRule TasksFrom where
  trans h h' := h.trans h'
  quiet h := tasksFrom_of_eq (tasks_rule.quiet h)
  begins c id result := tasksFrom_of_eq (c.tasks_beginReturn id result)
  ends c id := tasksFrom_of_eq (tasks_rule.ends c id)
  admits c id token := tasksFrom_of_eq (tasks_rule.admits c id token)
  breaks c e := tasksFrom_of_eq (tasks_rule.breaks c e)
  works h _ := h
  cancels c id := tasksFrom_of_eq (c.tasks_cancelReturn id)
  allocates c id size := by
    rcases c.allocateResults_shape id size with h | ⟨a, e, ms, -, -, h⟩ <;> rw [h]
    · exact tasksFrom_of_eq ⟨rfl, rfl⟩
    · exact tasksFrom_of_eq ⟨rfl, rfl⟩
  boots c id cap := by
    rcases c.setBootstrap_shape id cap with h | ⟨a, e, ms, -, -, h⟩ <;> rw [h]
    · exact tasksFrom_of_eq ⟨rfl, rfl⟩
    · exact tasksFrom_of_eq ⟨rfl, rfl⟩
  routes c id name := by
    rcases c.setPipeline_shape id name with h | ⟨a, -, -, h⟩ <;> rw [h]
    · exact tasksFrom_of_eq ⟨rfl, rfl⟩
    · exact tasksFrom_of_eq ⟨rfl, rfl⟩
  edits c ref change := tasksFrom_of_eq ⟨rfl, rfl⟩
  finishes c id releaseCaps := by
    cases h : c.answers.get? id with
    | none =>
        rw [c.finish_of_none releaseCaps h]
        exact tasksFrom_of_eq ⟨rfl, rfl⟩
    | some a =>
        obtain ⟨hs, ts, heq⟩ := c.finish_shape releaseCaps h
        rw [heq]
        exact tasksFrom_of_eq ⟨rfl, rfl⟩

theorem Reachable.tasksBelow {c : Connection} (hc : Reachable c) : c.TasksBelow := by
  induction hc with
  | initial options => exact fun _ _ h => absurd h (by simp [Connection.initial])
  | step action _ ih => exact ih.mono (tasksFrom_rule.step _ action)

end Callee.Connection
