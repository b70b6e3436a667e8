import Callee.Proofs.Completion

set_option autoImplicit false

/-! # Tasks over a step

A task changes only while it is polled. `TaskStep` says where a task that is there after a step comes
from: it was there before, it was taken up and has yet to begin, or it was polled and this is what is
left of it. The completion of a call has begun once its task was polled or dropped; from then on the
answer is closed, for as long as it stays in the table (`closed_of_poll`, `Closed.after`). -/

namespace Callee

/-- A piece of work that has yet to begin. -/
def Work.IsFresh : Work → Prop
  | .sendReturn _ (.unbegun _) => True
  | .accept (.unbegun _ _) => True
  | .disconnect _ .unbegun => True
  | _ => False

/-- The work that an action takes up, and the token that cancels it. -/
def Action.task? : Action → Option Task
  | .accept id token => some ⟨.accept (.unbegun id token), none⟩
  | .sendReturn h result guard => some ⟨.sendReturn h (.unbegun result), guard⟩
  | .disconnect e => some ⟨.disconnect e .unbegun, none⟩
  | _ => none

theorem Action.isFresh_of_task? {action : Action} {task : Task} (h : action.task? = some task) :
    task.work.IsFresh := by
  unfold task? at h
  split at h
  · obtain rfl := Option.some.inj h
    trivial
  · obtain rfl := Option.some.inj h
    trivial
  · obtain rfl := Option.some.inj h
    trivial
  · exact absurd h (by simp)

namespace Connection

open Books

/-! ## Where a task comes from -/

/-- Where a task comes from that is there after a step. -/
inductive TaskStep (c : Connection) (action : Action) (u : TaskId) (task : Task) : Prop
  | kept (before : c.tasks.get? u = some task) (idle : action ≠ .poll u)
  | spawned (number : u = c.nextTask) (fresh : task.work.IsFresh)
  | ran {before : Task} {work : Work} (isPoll : action = .poll u)
      (found : c.tasks.get? u = some before) (live : before.guard.any c.isCanceled = false)
      (left : (c.run u before.work).1 = .inr work) (task : task = { before with work := work })

theorem taskStep_of_eq {c : Connection} {action : Action} {u : TaskId} {task : Task}
    (idle : ∀ t, action ≠ .poll t) (h : (c.step action).2.tasks = c.tasks)
    (hget : (c.step action).2.tasks.get? u = some task) : c.TaskStep action u task :=
  .kept (h ▸ hget) (idle u)

theorem taskStep_of_insert {c : Connection} {action : Action} {u : TaskId} {task : Task} {work : Work}
    {guard : Option Token} (idle : ∀ t, action ≠ .poll t) (hfresh : work.IsFresh)
    (h : (c.step action).2.tasks = c.tasks.insert c.nextTask { work := work, guard := guard })
    (hget : (c.step action).2.tasks.get? u = some task) : c.TaskStep action u task := by
  rw [h, Table.get?_insert] at hget
  split at hget
  · next hu =>
      obtain rfl := Option.some.inj hget
      exact .spawned hu hfresh
  · exact .kept hget (idle u)

theorem tasks_freeSender (c : Connection) (t : TaskId) : (c.freeSender t).tasks = c.tasks :=
  congrArg Books.tasks (books_freeSender c t)

theorem tasks_dropTask (c : Connection) {t : TaskId} {task : Task} (h : c.tasks.get? t = some task) :
    (c.dropTask t).tasks = c.tasks.erase t := by
  have hfree : (({ c with tasks := c.tasks.erase t }).freeSender t).tasks = c.tasks.erase t :=
    tasks_freeSender _ t
  unfold dropTask
  rw [h]
  dsimp only
  split
  · rw [(tasks_cancelReturn _ _).1, hfree]
  · rw [(tasks_rule.ends _ _).1, hfree]
  · exact hfree

theorem step_poll_of_canceled {c : Connection} {t : TaskId} {task : Task}
    (hget : c.tasks.get? t = some task) (hcancel : task.guard.any c.isCanceled = true) :
    c.step (.poll t) = (.polled .aborted, c.dropTask t) := by
  simp [step, poll, hget, hcancel]

theorem step_poll_of_live {c : Connection} {t : TaskId} {task : Task} (hget : c.tasks.get? t = some task)
    (hlive : task.guard.any c.isCanceled = false) :
    (c.step (.poll t)).1 = .polled ((c.run t task.work).1.elim id fun _ => .pending) ∧
      ∃ ts, (c.step (.poll t)).2 = { (c.run t task.work).2 with tasks := ts } := by
  simp only [step, poll, hget, hlive, Bool.false_eq_true, if_false]
  split <;> next heq => rw [heq]; exact ⟨rfl, _, rfl⟩

theorem step_dropTask_of_get? {c : Connection} {t : TaskId} {task : Task}
    (hget : c.tasks.get? t = some task) : c.step (.dropTask t) = (.done, c.dropTask t) := by
  simp [step, Table.contains, hget]

/-- What a poll finishes was not told to cancel. -/
theorem live_of_finished {c : Connection} {t : TaskId} {task : Task} (hget : c.tasks.get? t = some task)
    (hfinished : (c.step (.poll t)).1 = .polled .finished) : task.guard.any c.isCanceled = false := by
  cases hcancel : task.guard.any c.isCanceled with
  | false => rfl
  | true =>
      rw [step_poll_of_canceled hget hcancel] at hfinished
      exact absurd hfinished (by simp)

theorem taskStep_dropTask {c : Connection} {action : Action} {t u : TaskId} {task : Task}
    (idle : action ≠ .poll u ∨ u = t) (h : (c.step action).2 = c.dropTask t)
    (hget : (c.step action).2.tasks.get? u = some task) : c.TaskStep action u task := by
  rw [h] at hget
  cases ht : c.tasks.get? t with
  | none =>
      have hstay : c.dropTask t = c := by simp [dropTask, ht]
      rw [hstay] at hget
      refine .kept hget (idle.resolve_right ?_)
      rintro rfl
      rw [ht] at hget
      exact absurd hget (by simp)
  | some dropped =>
      rw [c.tasks_dropTask ht, Table.get?_erase] at hget
      split at hget
      · exact absurd hget (by simp)
      · next hu => exact .kept hget (idle.resolve_right hu)

/-- Polling a task leaves the other tasks as they are. The task is gone then, or what is left of its work is
    there. -/
theorem tasks_poll (c : Connection) (t : TaskId) :
    ((c.step (.poll t)).2.tasks = c.tasks ∧ c.tasks.get? t = none) ∨
      (c.step (.poll t)).2.tasks = c.tasks.erase t ∨
      ∃ before work, c.tasks.get? t = some before ∧ before.guard.any c.isCanceled = false ∧
        (c.run t before.work).1 = .inr work ∧
        (c.step (.poll t)).2.tasks = c.tasks.insert t { before with work := work } := by
  cases ht : c.tasks.get? t with
  | none => exact Or.inl ⟨by simp [step, poll, ht], rfl⟩
  | some before =>
      cases hlive : before.guard.any c.isCanceled with
      | true =>
          refine Or.inr (Or.inl ?_)
          rw [step_poll_of_canceled ht hlive]
          exact c.tasks_dropTask ht
      | false =>
          have htasks := (c.run_tasks t before.work).1
          simp only [step, poll, ht, hlive, Bool.false_eq_true, if_false]
          split
          · next work c₁ heq =>
              rw [heq] at htasks
              dsimp only at htasks
              exact Or.inr (Or.inr ⟨before, work, rfl, hlive, by rw [heq], by rw [← htasks]⟩)
          · next outcome c₁ heq =>
              rw [heq] at htasks
              dsimp only at htasks
              exact Or.inr (Or.inl (by rw [← htasks]))

theorem taskStep_poll {c : Connection} {t u : TaskId} {task : Task}
    (hget : (c.step (.poll t)).2.tasks.get? u = some task) : c.TaskStep (.poll t) u task := by
  have hidle : u ≠ t → Action.poll t ≠ .poll u := fun hu he => hu (Action.poll.inj he).symm
  rcases c.tasks_poll t with ⟨htasks, hnone⟩ | htasks | ⟨before, work, ht, hlive, hleft, htasks⟩
  · rw [htasks] at hget
    refine .kept hget (hidle ?_)
    rintro rfl
    exact absurd (hnone.symm.trans hget) (by simp)
  · rw [htasks, Table.get?_erase] at hget
    split at hget
    · exact absurd hget (by simp)
    · next hu => exact .kept hget (hidle hu)
  · rw [htasks, Table.get?_insert] at hget
    split at hget
    · next hu =>
        subst hu
        exact .ran rfl ht hlive hleft (Option.some.inj hget).symm
    · next hu => exact .kept hget (hidle hu)

/-- Where nothing is polled and no task is dropped, a step takes up one task at most, which has yet to
    begin: that of the action. -/
theorem tasks_step_of_idle (c : Connection) {action : Action} (hpoll : ∀ t, action ≠ .poll t)
    (hdrop : ∀ t, action ≠ .dropTask t) : (c.step action).2.tasks = c.tasks ∨
      ∃ task, action.task? = some task ∧
        (c.step action).2.tasks = c.tasks.insert c.nextTask task := by
  cases action with
  | poll t => exact absurd rfl (hpoll t)
  | dropTask t => exact absurd rfl (hdrop t)
  | accept id token => exact Or.inr ⟨_, rfl, rfl⟩
  | disconnect e => exact Or.inr ⟨_, rfl, rfl⟩
  | sendReturn h result guard =>
      by_cases hheld : c.holds h = true
      · exact Or.inr ⟨_, rfl, by simp [step, hheld, spawn]⟩
      · exact Or.inl (by simp [step, hheld])
  | dropHandle h =>
      refine Or.inl ?_
      simp only [step]
      split
      · exact (tasks_cancelReturn _ h.id).1
      · rfl
  | newAnswer id token => exact Or.inl (tasks_rule.admits c id token).1
  | allocateResults h size =>
      refine Or.inl ?_
      have hbuild : (c.allocateResults h.id size).2.tasks = c.tasks := by
        rcases c.allocateResults_shape h.id size with heq | ⟨a, e, ms, -, -, heq⟩ <;> rw [heq]
      rw [step_allocateResults_snd]
      split
      · exact hbuild
      · rfl
  | setBootstrap h cap =>
      refine Or.inl ?_
      have hbuild : (c.setBootstrap h.id cap).2.tasks = c.tasks := by
        rcases c.setBootstrap_shape h.id cap with heq | ⟨a, e, ms, -, -, heq⟩ <;> rw [heq]
      rw [step_setBootstrap_snd]
      split
      · exact hbuild
      · rfl
  | edit ref change =>
      refine Or.inl ?_
      simp only [step]
      split <;> rfl
  | newCaller name mode =>
      refine Or.inl ?_
      simp only [step]
      split <;> rfl
  | setPipeline id name =>
      refine Or.inl ?_
      simp only [step]
      split
      · rcases c.setPipeline_shape id name with heq | ⟨a, -, -, heq⟩ <;> rw [heq]
      · rfl
  | forward id call =>
      refine Or.inl ?_
      have hbooks := congrArg Books.tasks (c.books_forward id call)
      rw [step_forward_snd]
      exact hbooks
  | acknowledge name count =>
      refine Or.inl ?_
      simp only [step]
      split
      · rfl
      · exact congrArg Books.tasks (books_acknowledgeHeld c name _)
  | finish id releaseCaps =>
      refine Or.inl ?_
      cases hid : c.answers.get? id with
      | none => simp only [step, c.finish_of_none releaseCaps hid]; rfl
      | some a =>
          obtain ⟨hs, ts, heq⟩ := c.finish_shape releaseCaps hid
          simp only [step, heq]
          rfl
  | cancel token => exact Or.inl rfl
  | configure setting => exact Or.inl rfl
  | gateSend => exact Or.inl rfl
  | gateShutdown => exact Or.inl rfl
  | openGate g => exact Or.inl rfl
  | takeSent => exact Or.inl rfl

/-- Every task after a step comes from one of these places. -/
theorem taskStep (c : Connection) (action : Action) {u : TaskId} {task : Task}
    (hget : (c.step action).2.tasks.get? u = some task) : c.TaskStep action u task := by
  have hidle : (∀ t, action ≠ .poll t) → (∀ t, action ≠ .dropTask t) → c.TaskStep action u task := by
    intro hpoll hdrop
    rcases c.tasks_step_of_idle hpoll hdrop with htasks | ⟨⟨work, guard⟩, htask, htasks⟩
    · exact taskStep_of_eq hpoll htasks hget
    · exact taskStep_of_insert hpoll (Action.isFresh_of_task? htask) htasks hget
  cases action with
  | poll t => exact taskStep_poll hget
  | dropTask t =>
      by_cases hin : c.tasks.contains t = true
      · exact taskStep_dropTask (t := t) (Or.inl (by simp)) (by simp [step, hin]) hget
      · exact taskStep_of_eq (by simp) (by simp [step, hin]) hget
  | _ => exact hidle (by simp) (by simp)

/-- No task comes into being under a number that was given out before. -/
theorem get?_tasks_after {c : Connection} {t : TaskId} (hlt : t < c.nextTask)
    (hgone : c.tasks.get? t = none) (actions : List Action) : (c.after actions).tasks.get? t = none := by
  induction actions generalizing c with
  | nil => exact hgone
  | cons action rest ih =>
      have hnext : c.nextTask ≤ (c.step action).2.nextTask := (tasksFrom_rule.step c action).1
      refine ih (Nat.lt_of_lt_of_le hlt hnext) ?_
      cases hget : (c.step action).2.tasks.get? t with
      | none => rfl
      | some task =>
          cases c.taskStep action hget with
          | kept before idle => exact absurd (hgone.symm.trans before) (by simp)
          | spawned number fresh => exact absurd (number ▸ hlt) (Nat.lt_irrefl _)
          | ran isPoll found live left task => exact absurd (hgone.symm.trans found) (by simp)

/-! ## Polls of a run -/

/-- A task is polled over a run with a reply of a kind. -/
def PollsTo (p : Reply → Prop) (c : Connection) (t : TaskId) (actions : List Action) : Prop :=
  ∃ before more, actions = before ++ .poll t :: more ∧ p ((c.after before).step (.poll t)).1

theorem pollsTo_cons_iff (p : Reply → Prop) (c : Connection) (t : TaskId) (action : Action)
    (rest : List Action) : PollsTo p c t (action :: rest) ↔
      action = .poll t ∧ p (c.step action).1 ∨ PollsTo p (c.step action).2 t rest := by
  constructor
  · rintro ⟨before, more, heq, hreply⟩
    cases before with
    | nil =>
        obtain ⟨rfl, -⟩ := List.cons.inj heq
        exact Or.inl ⟨rfl, hreply⟩
    | cons first before =>
        obtain ⟨rfl, rfl⟩ := List.cons.inj heq
        exact Or.inr ⟨before, more, rfl, hreply⟩
  · rintro (⟨rfl, hreply⟩ | ⟨before, more, rfl, hreply⟩)
    · exact ⟨[], rest, rfl, hreply⟩
    · exact ⟨action :: before, more, rfl, hreply⟩

/-- A task that is gone is only missed. -/
theorem missing_of_pollsTo {p : Reply → Prop} {c : Connection} {t : TaskId} (hlt : t < c.nextTask)
    (hgone : c.tasks.get? t = none) {actions : List Action} (h : PollsTo p c t actions) :
    p (.polled .missing) := by
  obtain ⟨before, more, -, hreply⟩ := h
  have hmissing := get?_tasks_after hlt hgone before
  simpa [step, poll, hmissing] using hreply

/-! ## Closed answers -/

/-- The completion of a call has begun: its answer is closed, if it is in the table. -/
def Closed (c : Connection) (call : CallId) : Prop :=
  call < c.nextCall ∧ ∀ id a, c.answers.get? id = some a → a.call = call → a.state.resultsReady = true

/-- What is closed stays so. -/
theorem Closed.after {c : Connection} {call : CallId} (h : c.Closed call) (hc : Reachable c)
    (actions : List Action) : (c.after actions).Closed call := by
  refine ⟨Nat.lt_of_lt_of_le h.1 (nextCall_le_after hc actions), fun id b hb hcall => ?_⟩
  have found : (c.after actions).books.status id = some (call, b.state) := hcall ▸ status_of_get? hb
  obtain ⟨st, hst, hkept⟩ := before_of_after hc actions h.1 found
  obtain ⟨a, ha, hcall', rfl⟩ := (status_eq_some_iff _ _ _ _).1 hst
  exact hkept.resultsReady (h.2 id a ha hcall')

/-- The answer of a handle is closed when it is replaced by one that is, or leaves the table. -/
theorem closed_of_replaced {c c' : Connection} (hc : Reachable c) {h : Handle} {st : AnswerState}
    {v : Option (CallId × AnswerState)} (found : c.books.status h.id = some (h.call, st))
    (status : ∀ j, c'.books.status j = if j = h.id then v else c.books.status j)
    (ready : ∀ call st', v = some (call, st') → st'.resultsReady = true)
    (calls : c'.nextCall = c.nextCall) : c'.Closed h.call := by
  refine ⟨calls ▸ hc.custody.call_lt found, fun id b hb hcall => ?_⟩
  have hst : c'.books.status id = some (h.call, b.state) := hcall ▸ status_of_get? hb
  rw [status] at hst
  split at hst
  · exact ready _ _ hst
  · next hid => exact absurd (hc.custody.call_inj hst found) hid

/-- What waits for deliveries goes on waiting for them, or is over. -/
theorem draining_of_awaitDeliveries {c : Connection} {h : Handle} {w : Wait} {stage : ReturnStage}
    (hleft : (c.awaitDeliveries h w).1 = some stage) : ∃ w', stage = .draining w' := by
  unfold awaitDeliveries at hleft
  obtain ⟨w', -, heq⟩ := Option.map_eq_some_iff.1 hleft
  exact ⟨w', heq.symm⟩

/-- A completion that was looked after has begun. -/
theorem owes_of_pollReturn (c : Connection) (t : TaskId) (h : Handle) (stage : ReturnStage) :
    (c.pollReturn t h stage).1.bind ReturnStage.owes ≠ some .building := by
  have hdeliver : ∀ (d : Connection) (w : Wait),
      (d.awaitDeliveries h w).1.bind ReturnStage.owes ≠ some .building := by
    intro d w howes
    obtain ⟨stage, hleft, hstage⟩ := Option.bind_eq_some_iff.1 howes
    obtain ⟨w', rfl⟩ := draining_of_awaitDeliveries hleft
    exact absurd hstage (by simp [ReturnStage.owes])
  have hsend : ∀ (d : Connection) (send : SendStage) (f : Bool),
      (d.awaitReturn t h send f).1.bind ReturnStage.owes ≠ some .building := by
    intro d send f
    unfold awaitReturn
    split
    · simp [ReturnStage.owes]
    · exact hdeliver _ _
    · exact hdeliver _ _
  cases stage with
  | draining w => exact hdeliver c w
  | sending send f => exact hsend c send f
  | unbegun result =>
      unfold pollReturn
      dsimp only
      split
      · simp
      · exact hsend _ _ _
      · exact hdeliver _ _

/-- What is left when a task has run is what is left of the work that it had. -/
theorem left_of_run {c : Connection} {t : TaskId} {work : Work} {h : Handle} {stage' : ReturnStage}
    (hleft : (c.run t work).1 = .inr (.sendReturn h stage')) :
    ∃ stage, work = .sendReturn h stage ∧ (c.pollReturn t h stage).1 = some stage' := by
  cases work with
  | accept stage =>
      simp only [run] at hleft
      split at hleft <;> exact absurd hleft (by simp)
  | disconnect e stage =>
      simp only [run] at hleft
      split at hleft <;> exact absurd hleft (by simp)
  | sendReturn k stage =>
      simp only [run] at hleft
      split at hleft
      · next heq =>
          simp only [Sum.inr.injEq, Work.sendReturn.injEq] at hleft
          obtain ⟨rfl, rfl⟩ := hleft
          exact ⟨stage, rfl, congrArg Prod.fst heq⟩
      · exact absurd hleft (by simp)

theorem stage_of_owes {work : Work} {h : Handle} {s : HandleStage} (howes : work.owes = some (h, s)) :
    ∃ stage, work = .sendReturn h stage ∧ stage.owes = some s := by
  cases work with
  | accept stage => exact absurd howes (by simp [Work.owes])
  | disconnect e stage => exact absurd howes (by simp [Work.owes])
  | sendReturn k stage =>
      obtain ⟨v, hv, heq⟩ := Option.map_eq_some_iff.1 howes
      obtain ⟨rfl, rfl⟩ := Prod.mk.inj heq
      exact ⟨stage, rfl, hv⟩

/-- Polling the completion of a call closes its answer. -/
theorem closed_of_poll {c : Connection} (hc : Reachable c) {t : TaskId} {task : Task} {h : Handle}
    {s : HandleStage} (hget : c.tasks.get? t = some task)
    (hlive : task.guard.any c.isCanceled = false) (howes : task.work.owes = some (h, s)) :
    (c.step (.poll t)).2.Closed h.call := by
  have hold : c.books.Holds (.task t) h s := (taskOwes_of_get? hget).trans howes
  obtain ⟨st, found, fit⟩ := hc.custody.found hold
  obtain ⟨stage, hwork, hstage⟩ := stage_of_owes howes
  obtain ⟨ts, hbooks, -⟩ := c.poll_books hget hlive
  obtain ⟨hsame, hpolled⟩ := c.pollReturn_life t hstage found fit
  rw [hwork, run_sendReturn] at hbooks
  have hstatus : (c.step (.poll t)).2.books.status = (c.pollReturn t h stage).2.books.status := by
    show (c.poll t).2.books.status = _
    rw [hbooks]
    rfl
  have hcalls : (c.step (.poll t)).2.nextCall = c.nextCall :=
    (congrArg Books.nextCall hbooks).trans hsame.nextCall
  cases hpolled with
  | @owing s' st' owes fits finish ready status =>
      refine closed_of_replaced hc found (fun j => (congrFun hstatus j).trans (status j)) ?_ hcalls
      rintro call st'' heq
      obtain ⟨-, rfl⟩ := Prod.mk.inj (Option.some.inj heq)
      cases s' with
      | building => exact absurd owes (c.owes_of_pollReturn t h stage)
      | sending f => exact fits.2.1
  | settled owes status =>
      refine closed_of_replaced hc found (fun j => (congrFun hstatus j).trans (status j)) ?_ hcalls
      rintro call st' heq
      obtain ⟨-, rfl, -⟩ := staying_eq_some_iff.1 heq
      rfl

/-- So does dropping it. -/
theorem closed_of_dropTask {c : Connection} (hc : Reachable c) {t : TaskId} {task : Task} {h : Handle}
    {s : HandleStage} (hget : c.tasks.get? t = some task) (howes : task.work.owes = some (h, s)) :
    (c.dropTask t).Closed h.call := by
  have hold : c.books.Holds (.task t) h s := (taskOwes_of_get? hget).trans howes
  obtain ⟨-, hcalls, -, st, found, status⟩ := c.dropTask_life hc.custody hold
  refine closed_of_replaced hc found status ?_ hcalls.symm
  rintro call st' heq
  obtain ⟨-, rfl, -⟩ := staying_eq_some_iff.1 heq
  rfl

/-- And so does giving up on the call. -/
theorem closed_of_dropHandle {c : Connection} (hc : Reachable c) {h : Handle}
    (hheld : c.holds h = true) : (c.step (.dropHandle h)).2.Closed h.call := by
  obtain ⟨st, found, -⟩ := hc.custody.found (holds_executor hheld)
  let c₁ : Connection := { c with handles := c.handles.erase h.call }
  have found₁ : c₁.books.status h.id = some (h.call, st) := found
  obtain ⟨hsame, status⟩ := c₁.cancelReturn_life found₁
  simp only [step, hheld, if_true]
  refine closed_of_replaced hc found status ?_ hsame.nextCall
  rintro call st' heq
  obtain ⟨-, rfl, -⟩ := staying_eq_some_iff.1 heq
  rfl

end Connection

end Callee
