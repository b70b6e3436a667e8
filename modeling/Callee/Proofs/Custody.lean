import Callee.Proofs.Books

set_option autoImplicit false

/-! # Who owes a return

Every answer owes the peer one return, and one handle is to bring it about: a handle that stands alone,
or one that a task has taken over to complete the call. Handles name answers by the peer's id, which is
used again, and a task still waits for deliveries when its answer is gone. `Custody` says that this
cannot go wrong: the handles that still owe a return, and the answers whose return was not sent, belong
together one by one, and each such handle knows how far its answer has come.

`LifeStep` lists what a step may do to lifecycles and handles. Each step does one of these
(`lifeStep`), each of them keeps `Custody` (`LifeStep.custody`), and so every connection that can come
about has it (`Reachable.custody`). -/

namespace Callee

/-! ## Handles that owe a return -/

/-- How far the return has come that a handle owes. -/
inductive HandleStage where
  | building
  /-- Handed to the sender. Also says whether the finish was in when the completion began. -/
  | sending (finishReceived : Bool)
  deriving DecidableEq

/-- What a completion still owes: nothing once the return was marked sent. -/
def ReturnStage.owes : ReturnStage → Option HandleStage
  | .unbegun _ => some .building
  | .sending _ f => some (.sending f)
  | .draining _ => none

/-- The handle in a piece of work that still owes its return. -/
def Work.owes : Work → Option (Handle × HandleStage)
  | .sendReturn h stage => stage.owes.map (h, ·)
  | _ => none

/-- Where a handle is. -/
inductive Holder where
  /-- It stands alone. -/
  | executor
  /-- A task has taken it over. -/
  | task (t : TaskId)
  deriving DecidableEq

/-- Whether the state of an answer is what the stage of its handle says. -/
def HandleStage.Fits : HandleStage → AnswerState → Prop
  | .building, st => st.returnSent = false ∧ st.resultsReady = false
  | .sending f, st =>
      st.returnSent = false ∧ st.resultsReady = true ∧ (f = true → st.finishReceived = true)

theorem HandleStage.Fits.unsent {s : HandleStage} {st : AnswerState} (h : s.Fits st) :
    st.returnSent = false := by
  cases s with
  | building => exact h.1
  | sending f => exact h.1

theorem HandleStage.Fits.not_done {s : HandleStage} {st : AnswerState} (h : s.Fits st) :
    st.isDone = false := by
  cases hdone : st.isDone with
  | false => rfl
  | true => exact absurd ((st.isDone_iff).1 hdone).1 (by simp [h.unsent])

theorem HandleStage.Fits.markFinishReceived {s : HandleStage} {st : AnswerState} (h : s.Fits st) :
    s.Fits st.markFinishReceived := by
  cases s with
  | building => exact ⟨by simpa using h.1, h.2⟩
  | sending f => exact ⟨by simpa using h.1, h.2.1, fun _ => by simp⟩

namespace Books

/-- The call and the state of the answer under an id. -/
def status (b : Books) (id : AnswerId) : Option (CallId × AnswerState) :=
  (b.answers.get? id).map fun a => (a.call, a.state)

/-- What the task with a number still owes. -/
def taskOwes (b : Books) (t : TaskId) : Option (Handle × HandleStage) :=
  (b.tasks.get? t).bind fun task => task.work.owes

/-- A handle is held somewhere and owes its return. -/
def Holds (b : Books) : Holder → Handle → HandleStage → Prop
  | .executor, h, s => b.handles.get? h.call = some h.id ∧ s = .building
  | .task t, h, s => b.taskOwes t = some (h, s)

/-- The handles that owe a return belong to the answers whose return was not sent. -/
structure Custody (b : Books) : Prop where
  /-- Each handle finds the answer of its own call, as far on as the handle thinks. -/
  found : ∀ {p h s}, b.Holds p h s → ∃ st, b.status h.id = some (h.call, st) ∧ s.Fits st
  /-- Each answer whose return was not sent has a handle. -/
  held : ∀ {id call st}, b.status id = some (call, st) → st.returnSent = false →
    ∃ p s, b.Holds p ⟨id, call⟩ s
  /-- No handle is in two places. -/
  single : ∀ {p q h s s'}, b.Holds p h s → b.Holds q h s' → p = q
  sent_ready : ∀ {id call st}, b.status id = some (call, st) → st.returnSent = true →
    st.resultsReady = true
  not_done : ∀ {id call st}, b.status id = some (call, st) → st.isDone = false
  call_lt : ∀ {id call st}, b.status id = some (call, st) → call < b.nextCall
  call_inj : ∀ {id id' call st st'}, b.status id = some (call, st) →
    b.status id' = some (call, st') → id = id'

theorem Custody.found_at {b : Books} (hb : b.Custody) {p : Holder} {h : Handle} {s : HandleStage}
    (hold : b.Holds p h s) : ∃ a, b.answers.get? h.id = some a ∧ a.call = h.call ∧ s.Fits a.state := by
  obtain ⟨st, hst, hfit⟩ := hb.found hold
  obtain ⟨a, ha, heq⟩ := Option.map_eq_some_iff.1 hst
  obtain ⟨hcall, rfl⟩ := Prod.mk.inj heq
  exact ⟨a, ha, hcall, hfit⟩

/-! ## What a step does to lifecycles -/

/-- What stands in the table of an answer in a state: nothing if it is done. -/
def staying (call : CallId) (st : AnswerState) : Option (CallId × AnswerState) :=
  if st.isDone then none else some (call, st)

theorem staying_eq_some_iff {call call' : CallId} {st st' : AnswerState} :
    staying call st = some (call', st') ↔ call = call' ∧ st = st' ∧ st.isDone = false := by
  unfold staying
  cases h : st.isDone
  · simp
  · simp

/-- Two books hold the same handles and tasks. -/
structure SameWork (b b' : Books) : Prop where
  handles : b'.handles = b.handles
  tasks : b'.tasks = b.tasks
  nextCall : b'.nextCall = b.nextCall
  nextTask : b'.nextTask = b.nextTask

theorem SameWork.of_eq {b b' : Books} (h : b' = b) : b.SameWork b' := by
  subst h
  exact ⟨rfl, rfl, rfl, rfl⟩

theorem SameWork.trans {b b' b'' : Books} (h : b.SameWork b') (h' : b'.SameWork b'') :
    b.SameWork b'' :=
  ⟨h'.handles.trans h.handles, h'.tasks.trans h.tasks, h'.nextCall.trans h.nextCall,
    h'.nextTask.trans h.nextTask⟩

theorem SameWork.holds {b b' : Books} (h : b.SameWork b') (p : Holder) (k : Handle)
    (s : HandleStage) : b'.Holds p k s ↔ b.Holds p k s := by
  cases p with
  | executor => simp only [Holds, h.handles]
  | task t => simp only [Holds, taskOwes, h.tasks]

/-! ## Reading the status off the table -/

theorem status_eq_some_iff (b : Books) (id : AnswerId) (call : CallId) (st : AnswerState) :
    b.status id = some (call, st) ↔
      ∃ a, b.answers.get? id = some a ∧ a.call = call ∧ a.state = st := by
  simp [status, Option.map_eq_some_iff, Prod.ext_iff]

theorem status_of_get? {b : Books} {id : AnswerId} {a : Answer} (h : b.answers.get? id = some a) :
    b.status id = some (a.call, a.state) :=
  (b.status_eq_some_iff id a.call a.state).2 ⟨a, h, rfl, rfl⟩

theorem status_eq_none_iff (b : Books) (id : AnswerId) :
    b.status id = none ↔ b.answers.get? id = none := by
  simp [status]

theorem status_of_insert {b b' : Books} {id : AnswerId} {a : Answer}
    (h : b'.answers = b.answers.insert id a) (j : AnswerId) :
    b'.status j = if j = id then some (a.call, a.state) else b.status j := by
  unfold status
  rw [h, Table.get?_insert]
  split <;> rfl

/-- Rewriting an answer without touching its call and its state leaves every status. -/
theorem status_of_rewrite {b b' : Books} {id : AnswerId} {a : Answer} (a' : Answer)
    (ha : b.answers.get? id = some a) (h : b'.answers = b.answers.insert id a')
    (hcall : a'.call = a.call) (hstate : a'.state = a.state) (j : AnswerId) :
    b'.status j = b.status j := by
  rw [status_of_insert h, hcall, hstate]
  by_cases hj : j = id
  · rw [if_pos hj, hj]
    simp [status, ha]
  · rw [if_neg hj]

/-! ## Reading the holds off the tables -/

theorem taskOwes_of_insert {b b' : Books} {t : TaskId} (task : Task)
    (h : b'.tasks = b.tasks.insert t task) (u : TaskId) :
    b'.taskOwes u = if u = t then task.work.owes else b.taskOwes u := by
  unfold taskOwes
  rw [h, Table.get?_insert]
  split <;> rfl

theorem taskOwes_of_erase {b b' : Books} {t : TaskId} (h : b'.tasks = b.tasks.erase t)
    (u : TaskId) : b'.taskOwes u = if u = t then none else b.taskOwes u := by
  unfold taskOwes
  rw [h, Table.get?_erase]
  split <;> rfl

theorem taskOwes_of_get? {b : Books} {t : TaskId} {task : Task} (h : b.tasks.get? t = some task) :
    b.taskOwes t = task.work.owes := by
  simp [taskOwes, h]

/-- Giving the task with one number nothing to owe, when it owed nothing, leaves every hold. -/
theorem holds_of_taskOwes {b b' : Books} (hh : b'.handles = b.handles)
    (ht : ∀ u, b'.taskOwes u = b.taskOwes u) (p : Holder) (k : Handle) (s : HandleStage) :
    b'.Holds p k s ↔ b.Holds p k s := by
  cases p with
  | executor => simp only [Holds, hh]
  | task t => simp only [Holds, ht]

end Books

/-- Whether an action may end the return of a handle at a place: it drops the handle, or it drops or
    polls the task that has taken the handle over. -/
def Action.Ends : Action → Holder → Handle → Prop
  | .dropHandle h, p, k => p = .executor ∧ h = k
  | .dropTask t, p, _ => p = .task t
  | .poll t, p, _ => p = .task t
  | _, _, _ => False

/-- Whether an action is the peer's finish of an id. -/
def Action.IsFinish (action : Action) (id : AnswerId) : Prop :=
  ∃ releaseCaps, action = .finish id releaseCaps

/-- What an action may do to the lifecycles of answers and to the handles that owe a return. -/
inductive LifeStep (b : Books) (action : Action) (b' : Books) : Prop
  /-- Nothing. A finish does nothing only if there is no answer under its id. -/
  | same (idle : ∀ id, action.IsFinish id → b.status id = none)
      (status : ∀ id, b'.status id = b.status id)
      (holds : ∀ p h s, b'.Holds p h s ↔ b.Holds p h s)
      (calls : b'.nextCall = b.nextCall)
  /-- An answer is created under a free id, with a handle of its own. -/
  | admitted {id : AnswerId} (idle : ∀ j, ¬ action.IsFinish j) (fresh : b.status id = none)
      (status : ∀ j, b'.status j = if j = id then some (b.nextCall, {}) else b.status j)
      (holds : ∀ p k s, b'.Holds p k s ↔
        b.Holds p k s ∨ p = .executor ∧ k = ⟨id, b.nextCall⟩ ∧ s = .building)
      (calls : b'.nextCall = b.nextCall + 1)
  /-- A handle is taken over by a task, or gets on with its return. -/
  | passed {p q : Holder} {h : Handle} {s s' : HandleStage} {st st' : AnswerState}
      (idle : ∀ j, ¬ action.IsFinish j) (hold : b.Holds p h s)
      (found : b.status h.id = some (h.call, st)) (fits : s'.Fits st')
      (finish : st'.finishReceived = st.finishReceived)
      (ready : st.resultsReady = true → st'.resultsReady = true)
      (status : ∀ j, b'.status j = if j = h.id then some (h.call, st') else b.status j)
      (holds : ∀ r k u, b'.Holds r k u ↔ b.Holds r k u ∧ k ≠ h ∨ r = q ∧ k = h ∧ u = s')
      (calls : b'.nextCall = b.nextCall)
  /-- The return of a handle is marked sent. -/
  | settled {p : Holder} {h : Handle} {s : HandleStage} {st : AnswerState}
      (idle : ∀ j, ¬ action.IsFinish j) (ends : action.Ends p h) (hold : b.Holds p h s)
      (found : b.status h.id = some (h.call, st))
      (status : ∀ j, b'.status j =
        if j = h.id then Books.staying h.call st.markResultsReady.markReturnSent else b.status j)
      (holds : ∀ r k u, b'.Holds r k u ↔ b.Holds r k u ∧ k ≠ h)
      (calls : b'.nextCall = b.nextCall)
  /-- The finish of an answer is received. -/
  | finished {id : AnswerId} {call : CallId} {st : AnswerState}
      (isFinish : action.IsFinish id) (found : b.status id = some (call, st))
      (status : ∀ j, b'.status j =
        if j = id then Books.staying call st.markFinishReceived else b.status j)
      (holds : ∀ p h s, b'.Holds p h s ↔ b.Holds p h s)
      (calls : b'.nextCall = b.nextCall)

namespace LifeStep

variable {b b' : Books} {action : Action}

theorem custody_admitted (hb : b.Custody) {id : AnswerId} (fresh : b.status id = none)
    (status : ∀ j, b'.status j = if j = id then some (b.nextCall, {}) else b.status j)
    (holds : ∀ p k s, b'.Holds p k s ↔
      b.Holds p k s ∨ p = .executor ∧ k = ⟨id, b.nextCall⟩ ∧ s = .building)
    (calls : b'.nextCall = b.nextCall + 1) : b'.Custody := by
  -- the answers that were there keep their state, and the new call is none of theirs
  have hold_status : ∀ {j call st}, b.status j = some (call, st) →
      b'.status j = some (call, st) ∧ call ≠ b.nextCall := by
    intro j call st h
    have hj : j ≠ id := by
      intro he
      rw [he, fresh] at h
      exact absurd h (by simp)
    rw [status, if_neg hj]
    exact ⟨h, Nat.ne_of_lt (hb.call_lt h)⟩
  have hcases : ∀ {j call st}, b'.status j = some (call, st) →
      j = id ∧ call = b.nextCall ∧ st = {} ∨ b.status j = some (call, st) := by
    intro j call st h
    rw [status] at h
    by_cases hj : j = id
    · rw [if_pos hj] at h
      obtain ⟨rfl, rfl⟩ := Prod.mk.inj (Option.some.inj h)
      exact Or.inl ⟨hj, rfl, rfl⟩
    · rw [if_neg hj] at h
      exact Or.inr h
  have hnew : ∀ {p s}, ¬ b.Holds p ⟨id, b.nextCall⟩ s := by
    intro p s h
    obtain ⟨st, hst, -⟩ := hb.found h
    rw [fresh] at hst
    exact absurd hst (by simp)
  refine ⟨?_, ?_, ?_, ?_, ?_, ?_, ?_⟩
  · intro p k s h
    rcases (holds p k s).1 h with hk | ⟨-, rfl, rfl⟩
    · obtain ⟨st, hst, hfit⟩ := hb.found hk
      exact ⟨st, (hold_status hst).1, hfit⟩
    · exact ⟨{}, by rw [status, if_pos rfl], rfl, rfl⟩
  · intro j call st h hunsent
    rcases hcases h with ⟨rfl, rfl, rfl⟩ | hj
    · exact ⟨.executor, .building, (holds _ _ _).2 (Or.inr ⟨rfl, rfl, rfl⟩)⟩
    · obtain ⟨p, s, hk⟩ := hb.held hj hunsent
      exact ⟨p, s, (holds _ _ _).2 (Or.inl hk)⟩
  · intro p q k s s' h h'
    rcases (holds p k s).1 h with hk | ⟨rfl, rfl, -⟩
    · rcases (holds q k s').1 h' with hk' | ⟨-, rfl, -⟩
      · exact hb.single hk hk'
      · exact absurd hk hnew
    · rcases (holds q _ s').1 h' with hk' | ⟨rfl, -, -⟩
      · exact absurd hk' hnew
      · rfl
  · intro j call st h hsent
    rcases hcases h with ⟨-, -, rfl⟩ | hj
    · exact absurd hsent (by decide)
    · exact hb.sent_ready hj hsent
  · intro j call st h
    rcases hcases h with ⟨-, -, rfl⟩ | hj
    · rfl
    · exact hb.not_done hj
  · intro j call st h
    rw [calls]
    rcases hcases h with ⟨-, rfl, -⟩ | hj
    · exact Nat.lt_succ_self _
    · exact Nat.lt_succ_of_lt (hb.call_lt hj)
  · intro j j' call st st' h h'
    rcases hcases h with ⟨rfl, hc, -⟩ | hj
    · rcases hcases h' with ⟨rfl, -, -⟩ | hj'
      · rfl
      · exact absurd hc (hold_status hj').2
    · rcases hcases h' with ⟨-, hc, -⟩ | hj'
      · exact absurd hc (hold_status hj).2
      · exact hb.call_inj hj hj'

/-- What keeps `Custody` when only the answer under one id changes, or leaves the table, and only its
    own handle with it. -/
theorem custody_replaced (hb : b.Custody) {id : AnswerId} {call : CallId} {st : AnswerState}
    {v : Option (CallId × AnswerState)} (found : b.status id = some (call, st))
    (status : ∀ j, b'.status j = if j = id then v else b.status j)
    (kept : ∀ call' st', v = some (call', st') → call' = call ∧ st'.isDone = false ∧
      (st'.returnSent = true → st'.resultsReady = true))
    (others : ∀ p k s, k ≠ ⟨id, call⟩ → (b'.Holds p k s ↔ b.Holds p k s))
    (own_found : ∀ p s, b'.Holds p ⟨id, call⟩ s → ∃ st', v = some (call, st') ∧ s.Fits st')
    (own_held : ∀ st', v = some (call, st') → st'.returnSent = false →
      ∃ p s, b'.Holds p ⟨id, call⟩ s)
    (own_single : ∀ p q s s', b'.Holds p ⟨id, call⟩ s → b'.Holds q ⟨id, call⟩ s' → p = q)
    (calls : b'.nextCall = b.nextCall) : b'.Custody := by
  -- the record under the id still belongs to its call, and the others are as they were
  have hcases : ∀ {j call' st'}, b'.status j = some (call', st') →
      j = id ∧ v = some (call', st') ∧ call' = call ∨ j ≠ id ∧ b.status j = some (call', st') := by
    intro j call' st' h
    rw [status] at h
    by_cases hj : j = id
    · rw [if_pos hj] at h
      exact Or.inl ⟨hj, h, (kept call' st' h).1⟩
    · rw [if_neg hj] at h
      exact Or.inr ⟨hj, h⟩
  -- a handle of another call stands under another id
  have hother : ∀ {p k s}, k ≠ ⟨id, call⟩ → b.Holds p k s → k.id ≠ id := by
    intro p k s hk h hid
    obtain ⟨st', hst', -⟩ := hb.found h
    rw [hid, found] at hst'
    obtain ⟨hcall, -⟩ := Prod.mk.inj (Option.some.inj hst')
    cases k
    simp_all
  refine ⟨?_, ?_, ?_, ?_, ?_, ?_, ?_⟩
  · intro p k s h
    by_cases hk : k = ⟨id, call⟩
    · subst hk
      obtain ⟨st', hv, hfit⟩ := own_found p s h
      exact ⟨st', by rw [status, if_pos rfl]; exact hv, hfit⟩
    · have hold := (others p k s hk).1 h
      obtain ⟨st', hst', hfit⟩ := hb.found hold
      exact ⟨st', by rw [status, if_neg (hother hk hold)]; exact hst', hfit⟩
  · intro j call' st' h hunsent
    rcases hcases h with ⟨rfl, hv, rfl⟩ | ⟨hj, hst⟩
    · exact own_held st' hv hunsent
    · obtain ⟨p, s, hold⟩ := hb.held hst hunsent
      have hne : (⟨j, call'⟩ : Handle) ≠ ⟨id, call⟩ := fun he => hj (congrArg Handle.id he)
      exact ⟨p, s, (others p _ s hne).2 hold⟩
  · intro p q k s s' h h'
    by_cases hk : k = ⟨id, call⟩
    · subst hk
      exact own_single p q s s' h h'
    · exact hb.single ((others p k s hk).1 h) ((others q k s' hk).1 h')
  · intro j call' st' h hsent
    rcases hcases h with ⟨-, hv, -⟩ | ⟨-, hst⟩
    · exact (kept call' st' hv).2.2 hsent
    · exact hb.sent_ready hst hsent
  · intro j call' st' h
    rcases hcases h with ⟨-, hv, -⟩ | ⟨-, hst⟩
    · exact (kept call' st' hv).2.1
    · exact hb.not_done hst
  · intro j call' st' h
    rw [calls]
    rcases hcases h with ⟨-, -, rfl⟩ | ⟨-, hst⟩
    · exact hb.call_lt found
    · exact hb.call_lt hst
  · intro j j' call' st₁ st₂ h h'
    rcases hcases h with ⟨rfl, -, rfl⟩ | ⟨hj, hst⟩
    · rcases hcases h' with ⟨rfl, -, -⟩ | ⟨-, hst'⟩
      · rfl
      · exact hb.call_inj found hst'
    · rcases hcases h' with ⟨rfl, -, rfl⟩ | ⟨-, hst'⟩
      · exact hb.call_inj hst found
      · exact hb.call_inj hst hst'

/-- Every kind of step keeps `Custody`. -/
theorem custody (h : LifeStep b action b') (hb : b.Custody) : b'.Custody := by
  cases h with
  | same idle status holds calls =>
      refine ⟨?_, ?_, ?_, ?_, ?_, ?_, ?_⟩ <;> simp only [status, holds, calls]
      · exact hb.found
      · exact hb.held
      · exact hb.single
      · exact hb.sent_ready
      · exact hb.not_done
      · exact hb.call_lt
      · exact hb.call_inj
  | admitted idle fresh status holds calls => exact custody_admitted hb fresh status holds calls
  | @passed p q h s s' st st' idle hold found fits finish ready status holds calls =>
      refine custody_replaced hb found status ?_ ?_ ?_ ?_ ?_ calls
      · intro call' st'' heq
        obtain ⟨rfl, rfl⟩ := Prod.mk.inj (Option.some.inj heq)
        exact ⟨rfl, fits.not_done, fun hsent => absurd hsent (by simp [fits.unsent])⟩
      · intro r k u hk
        rw [holds]
        exact ⟨fun h => h.elim And.left fun ⟨_, he, _⟩ => absurd he hk, fun h => Or.inl ⟨h, hk⟩⟩
      · intro r u h
        rcases (holds r _ u).1 h with ⟨-, hne⟩ | ⟨-, -, rfl⟩
        · exact absurd rfl hne
        · exact ⟨st', rfl, fits⟩
      · intro st'' _ _
        exact ⟨q, s', (holds q _ s').2 (Or.inr ⟨rfl, rfl, rfl⟩)⟩
      · intro r r' u u' h h'
        rcases (holds r _ u).1 h with ⟨-, hne⟩ | ⟨rfl, -, -⟩
        · exact absurd rfl hne
        · rcases (holds r' _ u').1 h' with ⟨-, hne⟩ | ⟨rfl, -, -⟩
          · exact absurd rfl hne
          · rfl
  | @settled p h s st idle ends hold found status holds calls =>
      have hgone : ∀ r u, ¬ b'.Holds r h u := fun r u hr => ((holds r h u).1 hr).2 rfl
      refine custody_replaced hb found status ?_ ?_ ?_ ?_ ?_ calls
      · intro call' st' heq
        obtain ⟨rfl, rfl, hdone⟩ := Books.staying_eq_some_iff.1 heq
        exact ⟨rfl, hdone, fun _ => by simp⟩
      · intro r k u hk
        rw [holds]
        exact ⟨And.left, fun h => ⟨h, hk⟩⟩
      · exact fun r u hr => absurd hr (hgone r u)
      · intro st' heq hunsent
        obtain ⟨-, rfl, -⟩ := Books.staying_eq_some_iff.1 heq
        exact absurd hunsent (by simp)
      · exact fun r r' u u' hr => absurd hr (hgone r u)
  | @finished id call st isFinish found status holds calls =>
      refine custody_replaced hb found status ?_ ?_ ?_ ?_ ?_ calls
      · intro call' st' heq
        obtain ⟨rfl, rfl, hdone⟩ := Books.staying_eq_some_iff.1 heq
        refine ⟨rfl, hdone, fun hsent => ?_⟩
        have hready : st.resultsReady = true := hb.sent_ready found (by simpa using hsent)
        simpa using hready
      · exact fun p k s _ => holds p k s
      · intro p s hr
        obtain ⟨st', hst', hfit⟩ := hb.found ((holds p _ s).1 hr)
        obtain rfl : st = st' := by
          rw [found] at hst'
          exact (Prod.mk.inj (Option.some.inj hst')).2
        have hfit' : s.Fits st.markFinishReceived := hfit.markFinishReceived
        refine ⟨st.markFinishReceived, Books.staying_eq_some_iff.2 ⟨rfl, rfl, ?_⟩, hfit'⟩
        exact hfit'.not_done
      · intro st' heq hunsent
        obtain ⟨-, rfl, -⟩ := Books.staying_eq_some_iff.1 heq
        obtain ⟨p, s, hold⟩ := hb.held found (by simpa using hunsent)
        exact ⟨p, s, (holds p _ s).2 hold⟩
      · exact fun p q s s' hp hq => hb.single ((holds _ _ _).1 hp) ((holds _ _ _).1 hq)

end LifeStep

end Callee
