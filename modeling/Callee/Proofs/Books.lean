import Callee.Connection.Step

set_option autoImplicit false

/-! # The books of a connection

Much of what a connection does concerns only its far ends: messages go out, receivers of pipelined
calls are handed calls and acknowledge them, errors are reported. The `Books` are the rest of it, what
is kept of the calls and of the work on them. The statements of this file say which operations leave
the books as they are, so that a property of the books has to look only at the others. -/

namespace Callee

/-- What a connection keeps of its calls, of what it handed to the peer and of its suspended work, and whether
    the program still runs. -/
structure Books where
  link : Link
  answers : Table AnswerId Answer
  exports : Exports
  messages : MessageStore
  handles : Table CallId AnswerId
  tasks : Table TaskId Task
  nextCall : CallId
  nextTask : TaskId
  panicked : Bool

theorem Answer.openReturn_eq_ok_iff (a : Answer) (id : AnswerId) (e : Envelope) :
    a.openReturn id = .ok e ↔ a.state.resultsReady = false ∧ a.message = some e := by
  unfold Answer.openReturn
  split
  · next hready => simp [hready]
  · next hready =>
      split
      · next d hd =>
          have hclosed : a.state.resultsReady = false := by simpa using hready
          simp [hd, hclosed]
      · next hnone => simp [hnone]

theorem eq_ok_of_toOption {ε α : Type} {r : Except ε α} {x : α} (h : r.toOption = some x) : r = .ok x := by
  cases r with
  | error e => exact absurd h (by simp [Except.toOption])
  | ok y => exact congrArg Except.ok (Option.some.inj h)

namespace Connection

/-- The books of a connection. -/
def books (c : Connection) : Books where
  link := c.link
  answers := c.answers
  exports := c.exports
  messages := c.messages
  handles := c.handles
  tasks := c.tasks
  nextCall := c.nextCall
  nextTask := c.nextTask
  panicked := c.panicked

/-! ## Calling out -/

@[simp] theorem books_emit (c : Connection) (e : Event) : (c.emit e).books = c.books := rfl

@[simp] theorem books_report (c : Connection) (e : Error) : (c.report e).books = c.books := rfl

@[simp] theorem books_reportAll (c : Connection) (es : List Error) :
    (c.reportAll es).books = c.books := by
  unfold reportAll
  induction es generalizing c with
  | nil => rfl
  | cons e rest ih => rw [List.foldl_cons, ih, books_report]

@[simp] theorem books_reportUnlessGone (c : Connection) (e : Error) :
    (c.reportUnlessGone e).books = c.books := by
  unfold reportUnlessGone
  split <;> rfl

/-! ## Messages on their way out -/

@[simp] theorem books_handOver (c : Connection) (t : TaskId) (call : Option CallId) (e : Envelope) :
    (c.handOver t call e).2.books = c.books := rfl

@[simp] theorem books_transmit (c : Connection) (call : Option CallId) (e : Envelope)
    (gate : Option GateId) : (c.transmit call e gate).2.books = c.books := by
  unfold transmit
  split
  · rfl
  · simp only
    split <;> rfl

@[simp] theorem books_pollSend (c : Connection) (t : TaskId) (call : Option CallId)
    (stage : SendStage) : (c.pollSend t call stage).2.books = c.books := by
  cases stage with
  | waiting e =>
      simp only [pollSend]
      split
      · rfl
      · exact books_transmit _ call e _
  | transmitting e gate => exact books_transmit c call e gate

@[simp] theorem books_freeSender (c : Connection) (t : TaskId) :
    (c.freeSender t).books = c.books := by
  unfold freeSender
  split <;> rfl

/-! ## Shutting down -/

@[simp] theorem books_awaitShutdown (c : Connection) (gate : Option GateId) :
    (c.awaitShutdown gate).2.books = c.books := by
  unfold awaitShutdown
  split
  · rfl
  · split
    · exact books_reportUnlessGone c _
    · rfl

@[simp] theorem books_startShutdown (c : Connection) (e : Error) :
    (c.startShutdown e).2.books = c.books := by
  unfold startShutdown
  exact books_awaitShutdown _ _

@[simp] theorem books_awaitAbort (c : Connection) (t : TaskId) (e : Error) (send : SendStage) :
    (c.awaitAbort t e send).2.books = c.books := by
  have hsend := c.books_pollSend t none send
  unfold awaitAbort
  split
  · next h => rw [h] at hsend; exact hsend
  · next h => rw [h] at hsend; rw [books_startShutdown, books_reportUnlessGone]; exact hsend
  · next h => rw [h] at hsend; rw [books_startShutdown]; exact hsend

/-! ## Pipelined calls -/

@[simp] theorem books_putDeliveries (c : Connection) (call : CallId) (d : Deliveries) :
    (c.putDeliveries call d).books = c.books := rfl

@[simp] theorem books_deliver (c : Connection) (name : CallerName) (owner : CallId)
    (call : PipelinedCall) : (c.deliver name owner call).books = c.books := rfl

@[simp] theorem books_acknowledge (c : Connection) (owner : CallId) :
    (c.acknowledge owner).books = c.books := rfl

@[simp] theorem books_holdDelivery (c : Connection) (name : CallerName) (owner : CallId) :
    (c.holdDelivery name owner).books = c.books := rfl

theorem books_foldl_acknowledge (c : Connection) (owners : List CallId) :
    (owners.foldl acknowledge c).books = c.books := by
  induction owners generalizing c with
  | nil => rfl
  | cons owner rest ih => rw [List.foldl_cons, ih, books_acknowledge]

@[simp] theorem books_acknowledgeHeld (c : Connection) (name : CallerName) (owners : List CallId) :
    (c.acknowledgeHeld name owners).books = c.books :=
  books_foldl_acknowledge _ owners

theorem books_forwardWithin (depth : Nat) (c : Connection) (id : AnswerId) (call : PipelinedCall) :
    (forwardWithin depth c id call).2.books = c.books := by
  induction depth generalizing c id call with
  | zero =>
      unfold forwardWithin
      split
      · rfl
      · rfl
      · simp only
        split <;> first | rfl | contradiction
  | succ depth ih =>
      unfold forwardWithin
      split
      · rfl
      · rfl
      · simp only
        split
        · rfl
        · next less _ hless =>
            obtain rfl : depth = less := Nat.succ.inj hless
            rw [books_acknowledge, books_emit]
            exact ih _ _ _
        · rfl

@[simp] theorem books_forward (c : Connection) (id : AnswerId) (call : PipelinedCall) :
    (c.forward id call).2.books = c.books :=
  books_forwardWithin _ c id call

@[simp] theorem books_awaitDeliveries (c : Connection) (h : Handle) (w : Wait) :
    (c.awaitDeliveries h w).2.books = c.books := rfl

/-! ## What the other operations touch -/

theorem reserve_shape (c : Connection) :
    ∃ ms hs, c.reserve.2 = { c with messages := ms, history := hs } := by
  unfold reserve
  simp only
  split
  · exact ⟨c.messages, _, rfl⟩
  · exact ⟨_, _, rfl⟩

theorem reserveReturn_shape (c : Connection) (id : AnswerId) :
    ∃ ms hs, (c.reserveReturn id).2 = { c with messages := ms, history := hs } := by
  obtain ⟨ms, hs, hres⟩ := c.reserve_shape
  unfold reserveReturn
  split
  · exact ⟨c.messages, c.history, rfl⟩
  · split
    · next h =>
        rw [h] at hres
        exact ⟨ms, hs, hres⟩
    · next h =>
        rw [h] at hres
        dsimp only at hres
        split
        · exact ⟨ms, hs, hres⟩
        · subst hres
          exact ⟨_, hs, rfl⟩

theorem reserveAbort_shape (c : Connection) (e : Error) :
    ∃ ms hs p, (c.reserveAbort e).2 = { c with messages := ms, history := hs, panicked := p } ∧
      (c.panicked = true → p = true) := by
  obtain ⟨ms, hs, hres⟩ := c.reserve_shape
  unfold reserveAbort
  split
  · next h =>
      rw [h] at hres
      exact ⟨ms, hs, c.panicked, hres, id⟩
  · next h =>
      rw [h] at hres
      dsimp only at hres ⊢
      subst hres
      split
      · exact ⟨ms, hs, _, rfl, fun hp => by simp [hp]⟩
      · exact ⟨_, hs, _, rfl, fun hp => by simp [hp]⟩

theorem newAnswer_of_live (c : Connection) {id : AnswerId} (token : Token) {a : Answer}
    (h : c.answers.get? id = some a) : c.newAnswer id token = (.duplicate (.idReused id), c) := by
  have hin : c.answers.contains id = true := by simp [Table.contains, h]
  simp [newAnswer, hin]

theorem newAnswer_shape (c : Connection) {id : AnswerId} (token : Token)
    (h : c.answers.get? id = none) :
    ∃ admission ms hs, c.newAnswer id token = (admission, { c with
        messages := ms
        history := hs
        answers := c.answers.insert id {
          call := c.nextCall, token := token, message := (c.reserveReturn id).1.toOption }
        handles := c.handles.insert c.nextCall id
        nextCall := c.nextCall + 1 }) ∧ ms = (c.reserveReturn id).2.messages ∧
      ∀ e, admission ≠ .duplicate e := by
  have hfresh : c.answers.contains id = false := by simp [Table.contains, h]
  obtain ⟨ms, hs, hres⟩ := c.reserveReturn_shape id
  unfold newAnswer
  rw [hfresh]
  simp only [Bool.false_eq_true, if_false]
  generalize c.reserveReturn id = r at hres ⊢
  obtain ⟨reserved, c₁⟩ := r
  dsimp only at hres
  subst hres
  cases reserved with
  | ok envelope => exact ⟨_, ms, _, rfl, rfl, by simp⟩
  | error e => exact ⟨_, ms, hs, rfl, rfl, by simp⟩

theorem allocateResults_shape (c : Connection) (id : AnswerId) (size : ObjectSize) :
    (c.allocateResults id size).2 = c ∨ ∃ a e ms, c.answers.get? id = some a ∧ a.message ≠ none ∧
      (c.allocateResults id size).2 = { c with
        messages := ms, answers := c.answers.insert id { a with message := some e } } := by
  unfold allocateResults
  split
  · exact Or.inl rfl
  · next a ha =>
      split
      · exact Or.inl rfl
      · next e hopen =>
          have hmsg : a.message ≠ none := by simp [((a.openReturn_eq_ok_iff id e).1 hopen).2]
          split
          · exact Or.inr ⟨a, _, _, ha, hmsg, rfl⟩
          · exact Or.inr ⟨a, _, _, ha, hmsg, rfl⟩

theorem setBootstrap_shape (c : Connection) (id : AnswerId) (cap : Capability) :
    (c.setBootstrap id cap).2 = c ∨ ∃ a e ms, c.answers.get? id = some a ∧ a.message ≠ none ∧
      (c.setBootstrap id cap).2 = { c with
        messages := ms, answers := c.answers.insert id { a with message := some e } } := by
  unfold setBootstrap
  split
  · exact Or.inl rfl
  · next a ha =>
      split
      · exact Or.inl rfl
      · next e hopen =>
          have hmsg : a.message ≠ none := by simp [((a.openReturn_eq_ok_iff id e).1 hopen).2]
          split
          · exact Or.inr ⟨a, _, _, ha, hmsg, rfl⟩
          · exact Or.inr ⟨a, _, _, ha, hmsg, rfl⟩

theorem setPipeline_shape (c : Connection) (id : AnswerId) (name : CallerName) :
    c.setPipeline id name = c ∨ ∃ a, c.answers.get? id = some a ∧ a.state.resultsReady = false ∧
      c.setPipeline id name = { c with
        answers := c.answers.insert id { a with caller := some name } } := by
  unfold setPipeline
  split
  · exact Or.inl rfl
  · next a ha =>
      split
      · exact Or.inl rfl
      · next hready => exact Or.inr ⟨a, ha, by simpa using hready, rfl⟩

theorem reportAll_shape (c : Connection) (es : List Error) :
    c.reportAll es = { c with history := (es.map Event.reported).reverse ++ c.history } := by
  unfold reportAll
  induction es generalizing c with
  | nil => rfl
  | cons e rest ih => rw [List.foldl_cons, ih]; simp [report, emit]

/-! Under an id without an answer nothing is done. -/

theorem finish_of_none (c : Connection) {id : AnswerId} (releaseCaps : Bool)
    (h : c.answers.get? id = none) : c.finish id releaseCaps = c.report (.unknownQuestion id) := by
  simp [finish, h]

theorem beginReturn_of_none (c : Connection) {id : AnswerId} (result : Except Error Unit)
    (h : c.answers.get? id = none) :
    c.beginReturn id result = (none, c.report (.returnWithoutAnswer id)) := by
  simp [beginReturn, h]

theorem endReturn_of_none (c : Connection) {id : AnswerId} (h : c.answers.get? id = none) :
    c.endReturn id = c := by
  simp [endReturn, h]

theorem cancelReturn_of_none (c : Connection) {id : AnswerId} (h : c.answers.get? id = none) :
    c.cancelReturn id = c := by
  simp [cancelReturn, h]

theorem finish_shape (c : Connection) {id : AnswerId} (releaseCaps : Bool) {a : Answer}
    (h : c.answers.get? id = some a) :
    ∃ hs ts, c.finish id releaseCaps = ({ c with
      exports := (c.exports.release (a.givenBack releaseCaps)).exports
      cancellations := ts
      history := hs }).putAnswer id (a.markFinishReceived releaseCaps) := by
  let back := c.exports.release (a.givenBack releaseCaps)
  let ts := if (a.markFinishReceived releaseCaps).isRunning then a.token :: c.cancellations
    else c.cancellations
  let reports := (back.errors.map Event.reported).reverse
  unfold finish
  rw [h]
  dsimp only
  rw [reportAll_shape]
  split
  · exact ⟨reports ++ .releasedOnFinish id :: c.history, ts, rfl⟩
  · exact ⟨reports ++ c.history, ts, rfl⟩

theorem endReturn_shape (c : Connection) {id : AnswerId} {a : Answer}
    (h : c.answers.get? id = some a) :
    ∃ hs, c.endReturn id = ({ c with history := hs }).putAnswer id a.markReturnSent := by
  unfold endReturn
  rw [h]
  dsimp only
  split
  · exact ⟨.releasedAfterReturn id :: c.history, rfl⟩
  · exact ⟨c.history, rfl⟩

theorem cancelReturn_shape (c : Connection) {id : AnswerId} {a : Answer}
    (h : c.answers.get? id = some a) :
    ∃ hs, c.cancelReturn id = ({ c with history := hs }).putAnswer id
      (a.complete (some .callCanceled)).markReturnSent := by
  unfold cancelReturn
  rw [h]
  dsimp only
  split
  · exact ⟨c.history, rfl⟩
  · exact ⟨.reported (.droppedUnreturned id) :: c.history, rfl⟩

theorem beginReturn_shape (c : Connection) {id : AnswerId} (result : Except Error Unit)
    {a : Answer} (h : c.answers.get? id = some a) :
    ∃ begun ms x hs p a', c.beginReturn id result = (some begun, { c with
        messages := ms, exports := x, history := hs, panicked := p, answers := c.answers.insert id a' }) ∧
      begun.finishReceived = a.state.finishReceived ∧ a'.call = a.call ∧
      a'.state = a.state.markResultsReady := by
  unfold beginReturn
  rw [h]
  dsimp only
  split
  · exact ⟨_, _, _, _, _, _, rfl, rfl, rfl, rfl⟩
  · unfold returnResults
    simp only [reportAll_shape]
    exact ⟨_, _, _, _, _, _, rfl, rfl, rfl, rfl⟩
  · unfold returnError
    dsimp only
    split
    · exact ⟨_, _, _, _, _, _, rfl, rfl, rfl, rfl⟩
    · exact ⟨_, _, _, _, _, _, rfl, rfl, rfl, rfl⟩

theorem isDown_eq_false_iff (c : Connection) : c.isDown = false ↔ c.link = .up := by
  unfold isDown
  cases c.link <;> simp

theorem beginDisconnect_shape (c : Connection) (e : Error) :
    c.beginDisconnect e = (none, c) ∧ c.isDown = true ∨
      c.isDown = false ∧ ∃ ms hs p, (c.beginDisconnect e).2 = { c.breakLink e with
        messages := ms, history := hs, panicked := p } ∧ (c.panicked = true → p = true) := by
  unfold beginDisconnect
  by_cases hdown : c.isDown = true
  · exact Or.inl ⟨by rw [if_pos hdown], hdown⟩
  · obtain ⟨ms, hs, p, h, hp⟩ := (c.breakLink e).reserveAbort_shape e
    rw [if_neg hdown]
    refine Or.inr ⟨by simpa using hdown, ms, .disconnecting e :: hs, p, ?_, hp⟩
    dsimp only
    rw [h]
    rfl

theorem pollDisconnect_shape (c : Connection) (t : TaskId) (e : Error) (stage : DisconnectStage) :
    (c.pollDisconnect t e stage).2.books = c.books ∨
      c.isDown = false ∧ ∃ ms p, (c.pollDisconnect t e stage).2.books =
        { (c.breakLink e).books with messages := ms, panicked := p } := by
  cases stage with
  | unbegun =>
      simp only [pollDisconnect]
      rcases c.beginDisconnect_shape e with ⟨h, -⟩ | ⟨hup, ms, hs, p, h, -⟩
      · rw [h]
        exact Or.inl rfl
      · refine Or.inr ⟨hup, ms, p, ?_⟩
        split
        · next hb => rw [hb] at h; dsimp only at h; rw [h]; rfl
        · next hb => rw [hb] at h; dsimp only at h; rw [books_awaitAbort, h]; rfl
        · next hb => rw [hb] at h; dsimp only at h; rw [books_startShutdown, books_report, h]; rfl
  | aborting send => exact Or.inl (books_awaitAbort c t e send)
  | shuttingDown gate => exact Or.inl (books_awaitShutdown c gate)

end Connection

end Callee
