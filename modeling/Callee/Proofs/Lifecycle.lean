import Callee.Proofs.Returns

set_option autoImplicit false

/-! # Every step does one thing to lifecycles

Each case of `step` is matched with the constructor of `LifeStep` that it is. What goes through a handle
needs `Custody` for that: only with it does the handle find the answer that the constructor speaks of.
Since the constructors keep `Custody`, both hold of all connections that can come about
(`Reachable.custody`, `Reachable.lifeStep`). -/

namespace Callee

open Books

/-! ## Kinds of steps -/

namespace LifeStep

/-- A step that leaves the books alone. -/
theorem of_books {b b' : Books} {action : Action} (h : b' = b)
    (idle : ∀ id, ¬ action.IsFinish id) : LifeStep b action b' := by
  subst h
  exact .same (fun id hf => absurd hf (idle id)) (fun _ => rfl) (fun _ _ _ => Iff.rfl) rfl

/-- A step that touches answers, but neither their calls and states nor any handle or task. -/
theorem of_sameWork {b b' : Books} {action : Action} (h : b.SameWork b')
    (status : ∀ id, b'.status id = b.status id) (idle : ∀ id, ¬ action.IsFinish id) :
    LifeStep b action b' :=
  .same (fun id hf => absurd hf (idle id)) status h.holds h.nextCall

/-- A task that owes nothing is taken up. -/
theorem of_spawn {b b' : Books} {action : Action} {work : Work} {guard : Option Token}
    (hfree : b.taskOwes b.nextTask = none) (howes : work.owes = none) (hanswers : b'.answers = b.answers)
    (hhandles : b'.handles = b.handles)
    (htasks : b'.tasks = b.tasks.insert b.nextTask { work := work, guard := guard })
    (hcalls : b'.nextCall = b.nextCall) (idle : ∀ id, ¬ action.IsFinish id) :
    LifeStep b action b' := by
  refine .same (fun id hf => absurd hf (idle id)) (fun id => ?_) (holds_of_taskOwes hhandles ?_) hcalls
  · simp only [status, hanswers]
  · intro u
    rw [taskOwes_of_insert _ htasks]
    by_cases hu : u = b.nextTask
    · rw [if_pos hu, hu, hfree]
      exact howes
    · rw [if_neg hu]

/-- A call is admitted, and what the tasks owe stays as it was. -/
theorem of_newAnswer {b b' : Books} {action : Action} (hb : b.Custody) {id : AnswerId}
    {a : Answer} (fresh : b.answers.get? id = none) (idle : ∀ j, ¬ action.IsFinish j)
    (hanswers : b'.answers = b.answers.insert id a) (hcall : a.call = b.nextCall)
    (hstate : a.state = {}) (hhandles : b'.handles = b.handles.insert b.nextCall id)
    (htasks : ∀ u, b'.taskOwes u = b.taskOwes u) (hcalls : b'.nextCall = b.nextCall + 1) :
    LifeStep b action b' := by
  refine .admitted idle ((b.status_eq_none_iff id).2 fresh) (fun j => ?_) (fun p k s => ?_) hcalls
  · rw [status_of_insert hanswers, hcall, hstate]
  · cases p with
    | task t => simp [Holds, htasks]
    | executor =>
        -- the handles that were there belong to earlier calls
        have hlt : b.Holds .executor k s → k.call ≠ b.nextCall := by
          intro hold
          obtain ⟨st, hst, -⟩ := hb.found hold
          exact Nat.ne_of_lt (hb.call_lt hst)
        obtain ⟨kid, kcall⟩ := k
        simp only [Holds, hhandles, Table.get?_insert, Handle.mk.injEq, true_and] at hlt ⊢
        by_cases hk : kcall = b.nextCall
        · subst hk
          simp only [if_true, Option.some.injEq, and_true]
          constructor
          · rintro ⟨rfl, hs⟩
            exact Or.inr ⟨rfl, hs⟩
          · rintro (hold | ⟨rfl, hs⟩)
            · exact absurd rfl (hlt hold)
            · exact ⟨rfl, hs⟩
        · simp [hk]

/-- Work on the return of an answer leaves its call and its state. -/
theorem of_rewrite {c c' : Connection} {action : Action} {id : AnswerId}
    (idle : ∀ j, ¬ action.IsFinish j)
    (h : c' = c ∨ ∃ a e ms, c.answers.get? id = some a ∧ a.message ≠ none ∧
      c' = { c with messages := ms, answers := c.answers.insert id { a with message := some e } }) :
    LifeStep c.books action c'.books := by
  rcases h with rfl | ⟨a, e, ms, ha, -, rfl⟩
  · exact .of_books rfl idle
  · exact .of_sameWork ⟨rfl, rfl, rfl, rfl⟩
      (status_of_rewrite (b := c.books) { a with message := some e } ha rfl rfl rfl) idle

end LifeStep

/-! ## Handles that change their place -/

namespace Books

/-- The holds after the task that held a handle has something else to owe, or nothing. -/
theorem holds_of_task {b b' : Books} (hb : b.Custody) {t : TaskId} {h : Handle} {s : HandleStage}
    (hold : b.Holds (.task t) h s) (hh : b'.handles = b.handles) {o : Option HandleStage}
    (ht : ∀ u, b'.taskOwes u = if u = t then o.map (h, ·) else b.taskOwes u) (r : Holder)
    (k : Handle) (v : HandleStage) :
    b'.Holds r k v ↔ b.Holds r k v ∧ k ≠ h ∨ r = .task t ∧ k = h ∧ o = some v := by
  cases r with
  | executor =>
      have hk : b.Holds .executor k v → k ≠ h := by
        rintro hold' rfl
        exact absurd (hb.single hold' hold) (by simp)
      simp only [Holds, hh, reduceCtorEq, false_and, or_false]
      exact ⟨fun hold' => ⟨hold', hk hold'⟩, And.left⟩
  | task u =>
      by_cases hu : u = t
      · subst hu
        -- a task holds one handle at most
        have hk : b.Holds (.task u) k v → k = h := by
          intro hold'
          exact (Prod.mk.inj (Option.some.inj (hold'.symm.trans hold))).1
        have hne : ¬ (b.Holds (.task u) k v ∧ k ≠ h) := fun h' => h'.2 (hk h'.1)
        simp only [hne, false_or, true_and]
        simp only [Holds, ht, if_true, Option.map_eq_some_iff, Prod.mk.injEq]
        constructor
        · rintro ⟨v', ho, rfl, rfl⟩
          exact ⟨rfl, ho⟩
        · rintro ⟨rfl, ho⟩
          exact ⟨v, ho, rfl, rfl⟩
      · have hk : b.Holds (.task u) k v → k ≠ h := by
          rintro hold' rfl
          exact hu (Holder.task.inj (hb.single hold' hold))
        simp only [Holder.task.injEq, hu, false_and, or_false]
        simp only [Holds, ht, if_neg hu]
        exact ⟨fun hold' => ⟨hold', hk hold'⟩, And.left⟩

/-- A handle that stood alone is gone. -/
theorem holds_of_drop {b d : Books} (hb : b.Custody) {h : Handle} {s : HandleStage}
    (hold : b.Holds .executor h s) (hh : d.handles = b.handles.erase h.call)
    (ht : ∀ u, d.taskOwes u = b.taskOwes u) (r : Holder) (k : Handle) (v : HandleStage) :
    d.Holds r k v ↔ b.Holds r k v ∧ k ≠ h := by
  cases r with
  | task u =>
      have hk : b.Holds (.task u) k v → k ≠ h := by
        rintro hold' rfl
        exact absurd (hb.single hold' hold) (by simp)
      simp only [Holds, ht]
      exact ⟨fun hold' => ⟨hold', hk hold'⟩, And.left⟩
  | executor =>
      obtain ⟨hid, hcall⟩ := h
      obtain ⟨kid, kcall⟩ := k
      have hget : b.handles.get? hcall = some hid := hold.1
      simp only [Holds, hh, Table.get?_erase, ne_eq, Handle.mk.injEq, not_and]
      by_cases hk : kcall = hcall
      · subst hk
        simp only [hget, if_true, reduceCtorEq, false_and, Option.some.injEq, false_iff]
        rintro ⟨⟨rfl, -⟩, hne⟩
        exact hne rfl trivial
      · simp [hk]

end Books

namespace Connection

/-! ## Polling a task -/

/-- What is still owed after a piece of work was run. -/
def leftOwes : TaskPoll ⊕ Work → Option (Handle × HandleStage)
  | .inl _ => none
  | .inr work => work.owes

/-- Polling a task runs its work and puts back what is left of it. -/
theorem poll_books (c : Connection) {t : TaskId} {task : Task} (hget : c.tasks.get? t = some task)
    (hlive : task.guard.any c.isCanceled = false) :
    ∃ ts, (c.poll t).2.books = { (c.run t task.work).2.books with tasks := ts } ∧
      ∀ u, (c.poll t).2.books.taskOwes u =
        if u = t then leftOwes (c.run t task.work).1 else c.books.taskOwes u := by
  have htasks := (c.run_tasks t task.work).1
  unfold poll
  simp only [hget, hlive, Bool.false_eq_true, if_false]
  split
  · next work c₁ heq =>
      rw [heq] at htasks ⊢
      have hin : c₁.tasks.insert t { task with work := work } =
          c.tasks.insert t { task with work := work } := congrArg (Table.insert · t _) htasks
      exact ⟨_, rfl, taskOwes_of_insert (b := c.books) { task with work := work } hin⟩
  · next outcome c₁ heq =>
      rw [heq] at htasks ⊢
      have hout : c₁.tasks.erase t = c.tasks.erase t := congrArg (Table.erase · t) htasks
      exact ⟨_, rfl, taskOwes_of_erase (b := c.books) hout⟩

theorem run_sendReturn (c : Connection) (t : TaskId) (h : Handle) (stage : ReturnStage) :
    (c.run t (.sendReturn h stage)).2 = (c.pollReturn t h stage).2 := by
  simp only [run]
  split <;> next heq => rw [heq]

theorem leftOwes_sendReturn (c : Connection) (t : TaskId) (h : Handle) (stage : ReturnStage) :
    leftOwes (c.run t (.sendReturn h stage)).1 =
      ((c.pollReturn t h stage).1.bind ReturnStage.owes).map (h, ·) := by
  simp only [run]
  split <;> next heq => rw [heq]; rfl

/-- Polling the completion of a call that still owes its return keeps the handle in the task, if it goes on
    owing it, and leaves all others where they are. -/
theorem holds_pollReturn (c : Connection) (hb : c.books.Custody) {t : TaskId} {h : Handle}
    {stage : ReturnStage} {s : HandleStage} {guard : Option Token}
    (hget : c.tasks.get? t = some ⟨.sendReturn h stage, guard⟩)
    (hlive : guard.any c.isCanceled = false) (howes : stage.owes = some s) (r : Holder) (k : Handle)
    (v : HandleStage) : (c.poll t).2.books.Holds r k v ↔ c.books.Holds r k v ∧ k ≠ h ∨
      r = .task t ∧ k = h ∧ (c.pollReturn t h stage).1.bind ReturnStage.owes = some v := by
  have hold : c.books.Holds (.task t) h s := by
    refine (taskOwes_of_get? (b := c.books) hget).trans ?_
    simp [Work.owes, howes]
  obtain ⟨st, found, fit⟩ := hb.found hold
  obtain ⟨hwork, -⟩ := c.pollReturn_life t howes found fit
  obtain ⟨ts, hbooks, htasks⟩ := c.poll_books hget hlive
  have hhandles : (c.poll t).2.books.handles = c.books.handles := by
    rw [hbooks, run_sendReturn]
    exact hwork.handles
  rw [leftOwes_sendReturn] at htasks
  exact holds_of_task hb hold hhandles htasks r k v

/-- Polling the completion of a call that still owes its return. -/
theorem lifeStep_pollReturn (c : Connection) (hb : c.books.Custody) {t : TaskId} {task : Task}
    (hget : c.tasks.get? t = some task) (hlive : task.guard.any c.isCanceled = false) {h : Handle}
    {s : HandleStage} (howes : task.work.owes = some (h, s)) :
    LifeStep c.books (.poll t) (c.poll t).2.books := by
  have hold : c.books.Holds (.task t) h s := (taskOwes_of_get? hget).trans howes
  obtain ⟨st, found, fit⟩ := hb.found hold
  have idle : ∀ j, ¬ (Action.poll t).IsFinish j := by
    rintro j ⟨r, he⟩
    cases he
  obtain ⟨ts, hbooks, -⟩ := c.poll_books hget hlive
  obtain ⟨work, guard⟩ := task
  cases work with
  | accept stage => exact absurd howes (by simp [Work.owes])
  | disconnect e stage => exact absurd howes (by simp [Work.owes])
  | sendReturn h' stage =>
      obtain ⟨v, hv, heq⟩ := Option.map_eq_some_iff.1 howes
      obtain ⟨rfl, rfl⟩ := Prod.mk.inj heq
      obtain ⟨hwork, hp⟩ := c.pollReturn_life t hv found fit
      have hstatus : (c.poll t).2.books.status = (c.pollReturn t h' stage).2.books.status := by
        rw [hbooks, run_sendReturn]
        rfl
      have hcalls : (c.poll t).2.books.nextCall = c.books.nextCall := by
        rw [hbooks, run_sendReturn]
        exact hwork.nextCall
      have hholds := c.holds_pollReturn hb hget hlive hv
      cases hp with
      | @owing s' st' owes fits finish ready status =>
          refine .passed idle hold found fits finish ready (q := .task t) (fun j => ?_) ?_ hcalls
          · rw [hstatus, status]
          · intro r k u
            rw [hholds, owes, Option.some.injEq, eq_comm (a := s')]
      | settled owes status =>
          refine .settled idle ?_ hold found (fun j => ?_) (fun r k u => ?_) hcalls
          · rfl
          · rw [hstatus, status]
          · rw [hholds, owes]
            simp

/-- The end of the connection leaves lifecycles, handles and tasks alone. -/
theorem pollDisconnect_life (c : Connection) (t : TaskId) (e : Error) (stage : DisconnectStage) :
    c.books.SameWork (c.pollDisconnect t e stage).2.books ∧
      ∀ id, (c.pollDisconnect t e stage).2.books.status id = c.books.status id := by
  rcases c.pollDisconnect_shape t e stage with h | ⟨-, ms, p, h⟩
  · rw [h]
    exact ⟨.of_eq rfl, fun _ => rfl⟩
  · rw [h]
    refine ⟨⟨rfl, rfl, rfl, rfl⟩, fun id => ?_⟩
    simp [status, books, breakLink, Option.map_map, Function.comp_def]

/-- A task that owes nothing, and whose work leaves nothing to owe. -/
theorem taskOwes_poll (c : Connection) {t : TaskId} {task : Task} (hget : c.tasks.get? t = some task)
    (hlive : task.guard.any c.isCanceled = false) (howes : task.work.owes = none)
    (hleft : leftOwes (c.run t task.work).1 = none) (u : TaskId) :
    (c.poll t).2.books.taskOwes u = c.books.taskOwes u := by
  obtain ⟨ts, -, htasks⟩ := c.poll_books hget hlive
  rw [htasks, hleft]
  by_cases hu : u = t
  · rw [if_pos hu, hu, taskOwes_of_get? (b := c.books) hget, howes]
  · rw [if_neg hu]

/-- Nothing but the work in progress changes. -/
theorem lifeStep_pollQuiet (c : Connection) {t : TaskId} {task : Task}
    (hget : c.tasks.get? t = some task) (hlive : task.guard.any c.isCanceled = false)
    (howes : task.work.owes = none) (hleft : leftOwes (c.run t task.work).1 = none)
    (hwork : c.books.SameWork (c.run t task.work).2.books)
    (hstatus : ∀ id, (c.run t task.work).2.books.status id = c.books.status id) :
    LifeStep c.books (.poll t) (c.poll t).2.books := by
  obtain ⟨ts, hbooks, -⟩ := c.poll_books hget hlive
  have hsame := c.taskOwes_poll hget hlive howes hleft
  refine .same ?_ (fun id => ?_) (holds_of_taskOwes ?_ hsame) ?_
  · rintro j ⟨r, he⟩
    cases he
  · rw [hbooks]
    exact hstatus id
  · rw [hbooks]
    exact hwork.handles
  · rw [hbooks]
    exact hwork.nextCall

/-- Receiving a call in a task. -/
theorem lifeStep_pollAccept (c : Connection) (hb : c.books.Custody) {t : TaskId} {stage : AcceptStage}
    {guard : Option Token} (hget : c.tasks.get? t = some ⟨.accept stage, guard⟩)
    (hlive : guard.any c.isCanceled = false) :
    LifeStep c.books (.poll t) (c.poll t).2.books := by
  have hrun : (c.run t (.accept stage)).2 = (c.pollAccept t stage).2 ∧
      leftOwes (c.run t (.accept stage)).1 = none := by
    simp only [run]
    split <;> next heq => rw [heq]; exact ⟨rfl, rfl⟩
  have hquiet : c.books.SameWork (c.pollAccept t stage).2.books →
      (∀ id, (c.pollAccept t stage).2.books.status id = c.books.status id) →
      LifeStep c.books (.poll t) (c.poll t).2.books := by
    rw [← hrun.1]
    exact c.lifeStep_pollQuiet hget hlive rfl hrun.2
  cases stage with
  | refusing e stage =>
      obtain ⟨hwork, hstatus⟩ := c.pollDisconnect_life t e stage
      simp only [pollAccept, refuse_snd] at hquiet
      exact hquiet hwork hstatus
  | unbegun id token =>
      cases hid : c.answers.get? id with
      | some a =>
          obtain ⟨hwork, hstatus⟩ :=
            (c.report (.idReused id)).pollDisconnect_life t (.idReused id) .unbegun
          simp only [pollAccept, c.newAnswer_of_live token hid] at hquiet
          split at hquiet
          · rw [refuse_snd] at hquiet
            exact hquiet hwork hstatus
          · exact hquiet (.of_eq rfl) fun _ => rfl
      | none =>
          obtain ⟨ts, hbooks, -⟩ := c.poll_books hget hlive
          obtain ⟨admission, ms, hs, hnew, -, hne⟩ := c.newAnswer_shape token hid
          have haccept : (c.pollAccept t (.unbegun id token)).2 = (c.newAnswer id token).2 := by
            simp only [pollAccept, hnew]
          have idle : ∀ j, ¬ (Action.poll t).IsFinish j := by
            rintro j ⟨r, he⟩
            cases he
          dsimp only at hbooks
          rw [hrun.1, haccept, hnew] at hbooks
          exact LifeStep.of_newAnswer
            (a := ⟨c.nextCall, token, {}, (c.reserveReturn id).1.toOption, none, none, none, []⟩)
            hb hid idle (congrArg Books.answers hbooks) rfl rfl (congrArg Books.handles hbooks)
            (c.taskOwes_poll hget hlive rfl hrun.2) (congrArg Books.nextCall hbooks)

/-- Polling a task that owes no return. -/
theorem lifeStep_pollOther (c : Connection) (hb : c.books.Custody) {t : TaskId} {task : Task}
    (hget : c.tasks.get? t = some task) (hlive : task.guard.any c.isCanceled = false)
    (howes : task.work.owes = none) : LifeStep c.books (.poll t) (c.poll t).2.books := by
  have hquiet := c.lifeStep_pollQuiet hget hlive howes
  obtain ⟨work, guard⟩ := task
  cases work with
  | accept stage => exact c.lifeStep_pollAccept hb hget hlive
  | disconnect e stage =>
      obtain ⟨hwork, hstatus⟩ := c.pollDisconnect_life t e stage
      have hrun : (c.run t (.disconnect e stage)).2 = (c.pollDisconnect t e stage).2 ∧
          leftOwes (c.run t (.disconnect e stage)).1 = none := by
        simp only [run]
        split <;> next heq => rw [heq]; exact ⟨rfl, rfl⟩
      dsimp only at hquiet
      rw [hrun.1] at hquiet
      exact hquiet hrun.2 hwork hstatus
  | sendReturn h stage =>
      cases stage with
      | unbegun result => exact absurd howes (by simp [Work.owes, ReturnStage.owes])
      | sending send f => exact absurd howes (by simp [Work.owes, ReturnStage.owes])
      | draining w =>
          have hdeliver := c.books_awaitDeliveries h w
          have hrun : (c.run t (.sendReturn h (.draining w))).2.books = c.books := by
            simp only [run, pollReturn]
            split <;> next heq => rw [heq] at hdeliver; exact hdeliver
          refine hquiet ?_ (.of_eq hrun) fun id => congrArg (fun b : Books => b.status id) hrun
          simp only [run, pollReturn, awaitDeliveries]
          cases ((c.deliveriesOf h.call).poll w).1 <;> rfl

/-! ## Dropping a task -/

/-- Dropping a task takes it out of the books, and settles the return that it still owes. -/
theorem dropTask_life (c : Connection) (hb : c.books.Custody) {t : TaskId} {h : Handle}
    {s : HandleStage} (hold : c.books.Holds (.task t) h s) :
    c.books.handles = (c.dropTask t).books.handles ∧
      c.books.nextCall = (c.dropTask t).books.nextCall ∧
      (c.dropTask t).books.tasks = c.books.tasks.erase t ∧
      ∃ st, c.books.status h.id = some (h.call, st) ∧ ∀ j, (c.dropTask t).books.status j =
        if j = h.id then staying h.call st.markResultsReady.markReturnSent
        else c.books.status j := by
  obtain ⟨st, found, fit⟩ := hb.found hold
  obtain ⟨task, hget, howes⟩ := Option.bind_eq_some_iff.1 hold
  obtain ⟨work, guard⟩ := task
  let c₁ := ({ c with tasks := c.tasks.erase t }).freeSender t
  have hbooks : c₁.books = { c.books with tasks := c.tasks.erase t } := books_freeSender _ t
  have hstatus : ∀ j, c₁.books.status j = c.books.status j := fun j => by rw [hbooks]; rfl
  have found₁ : c₁.books.status h.id = some (h.call, st) := (hstatus _).trans found
  have hwork₁ : c₁.handles = c.handles ∧ c₁.nextCall = c.nextCall ∧ c₁.tasks = c.tasks.erase t :=
    ⟨congrArg Books.handles hbooks, congrArg Books.nextCall hbooks, congrArg Books.tasks hbooks⟩
  cases work with
  | accept stage => exact absurd howes (by simp [Work.owes])
  | disconnect e stage => exact absurd howes (by simp [Work.owes])
  | sendReturn h' stage =>
      obtain ⟨v, hv, heq⟩ := Option.map_eq_some_iff.1 howes
      obtain ⟨rfl, rfl⟩ := Prod.mk.inj heq
      cases stage with
      | draining w => exact absurd hv (by simp [ReturnStage.owes])
      | unbegun result =>
          have hdrop : c.dropTask t = c₁.cancelReturn h'.id := by
            unfold dropTask
            rw [show c.tasks.get? t = _ from hget]
          obtain ⟨hwork, hcancel⟩ := c₁.cancelReturn_life found₁
          rw [hdrop]
          refine ⟨(hwork.handles.trans hwork₁.1).symm, (hwork.nextCall.trans hwork₁.2.1).symm,
            hwork.tasks.trans hwork₁.2.2, st, found, fun j => ?_⟩
          rw [hcancel, hstatus]
      | sending send f =>
          obtain rfl : v = .sending f := (Option.some.inj hv).symm
          have hself : st.markResultsReady = st := by
            cases st
            simp_all [HandleStage.Fits, AnswerState.markResultsReady]
          have hdrop : c.dropTask t = c₁.endReturn h'.id := by
            unfold dropTask
            rw [show c.tasks.get? t = _ from hget]
          obtain ⟨hwork, hend⟩ := c₁.endReturn_life found₁
          rw [hdrop]
          refine ⟨(hwork.handles.trans hwork₁.1).symm, (hwork.nextCall.trans hwork₁.2.1).symm,
            hwork.tasks.trans hwork₁.2.2, st, found, fun j => ?_⟩
          rw [hend, hstatus, hself]

/-- Dropping a task that owes no return only takes it out of the books. -/
theorem dropTask_books (c : Connection) {t : TaskId} (howes : c.books.taskOwes t = none) :
    (c.dropTask t).books = { c.books with tasks := c.tasks.erase t } ∨ (c.dropTask t) = c := by
  unfold dropTask
  cases hget : c.tasks.get? t with
  | none => exact Or.inr rfl
  | some task =>
      have hnone : task.work.owes = none := (taskOwes_of_get? (b := c.books) hget).symm.trans howes
      refine Or.inl ?_
      dsimp only
      split
      · next hw => rw [hw] at hnone; exact absurd hnone (by simp [Work.owes, ReturnStage.owes])
      · next hw => rw [hw] at hnone; exact absurd hnone (by simp [Work.owes, ReturnStage.owes])
      · exact books_freeSender _ t

/-- Dropping a task, as the step of an action that may do that. -/
theorem lifeStep_dropTask (c : Connection) (hb : c.books.Custody) {t : TaskId} {action : Action}
    (ends : ∀ h, action.Ends (.task t) h) (idle : ∀ j, ¬ action.IsFinish j) :
    LifeStep c.books action (c.dropTask t).books := by
  cases howes : c.books.taskOwes t with
  | some owed =>
      obtain ⟨h, s⟩ := owed
      have hold : c.books.Holds (.task t) h s := howes
      obtain ⟨hhandles, hcalls, htasks, st, found, hstatus⟩ := c.dropTask_life hb hold
      refine .settled idle (ends h) hold found hstatus (fun r k u => ?_) hcalls.symm
      rw [holds_of_task hb hold (o := none) hhandles.symm (taskOwes_of_erase htasks)]
      simp
  | none =>
      rcases c.dropTask_books howes with h | h
      · rw [h]
        refine .same (fun id hf => absurd hf (idle id)) (fun _ => rfl) ?_ rfl
        refine holds_of_taskOwes rfl fun u => ?_
        rw [taskOwes_of_erase (b := c.books) (t := t) rfl]
        by_cases hu : u = t
        · rw [if_pos hu, hu, howes]
        · rw [if_neg hu]
      · rw [h]
        exact LifeStep.of_books rfl idle

theorem TasksBelow.taskOwes_nextTask {c : Connection} (ht : c.TasksBelow) :
    c.books.taskOwes c.nextTask = none := by
  unfold taskOwes
  cases hget : c.books.tasks.get? c.nextTask with
  | none => rfl
  | some task => exact absurd (ht _ _ hget) (Nat.lt_irrefl _)

theorem holds_executor {c : Connection} {h : Handle} (hheld : c.holds h = true) :
    c.books.Holds .executor h .building :=
  ⟨of_decide_eq_true hheld, rfl⟩

/-! ## Handles that stand alone -/

/-- A completion takes its handle over. -/
theorem lifeStep_sendReturn (c : Connection) (hb : c.books.Custody) (ht : c.TasksBelow) {h : Handle}
    (hheld : c.holds h = true) (result : Except Error Unit) (guard : Option Token) {action : Action}
    (idle : ∀ j, ¬ action.IsFinish j) :
    LifeStep c.books action (({ c with handles := c.handles.erase h.call }).spawn
      (.sendReturn h (.unbegun result)) guard).2.books := by
  have hold := holds_executor hheld
  obtain ⟨st, found, fit⟩ := hb.found hold
  refine .passed (q := .task c.nextTask) idle hold found fit rfl id (fun j => ?_) (fun r k v => ?_) rfl
  · by_cases hj : j = h.id
    · rw [if_pos hj, hj]
      exact found
    · rw [if_neg hj]
      rfl
  · -- first the handle leaves its place, then the task takes it
    let b₁ : Books := { c.books with handles := c.handles.erase h.call }
    have hleft := holds_of_drop (d := b₁) hb hold rfl (fun _ => rfl) r k v
    rw [← hleft]
    cases r with
    | executor => simp [Holds, spawn, b₁, books]
    | task u =>
        simp only [Holds, spawn]
        rw [taskOwes_of_insert (b := b₁) _ rfl]
        by_cases hu : u = c.nextTask
        · subst hu
          have hfree₁ : b₁.taskOwes c.nextTask = none := ht.taskOwes_nextTask
          simp [hfree₁, Work.owes, ReturnStage.owes, Prod.ext_iff, eq_comm]
        · simp [hu]

/-- Dropping a handle settles the return that it owes. -/
theorem lifeStep_dropHandle (c : Connection) (hb : c.books.Custody) {h : Handle}
    (hheld : c.holds h = true) : LifeStep c.books (.dropHandle h)
      (({ c with handles := c.handles.erase h.call }).cancelReturn h.id).books := by
  have hold := holds_executor hheld
  obtain ⟨st, found, fit⟩ := hb.found hold
  let c₁ : Connection := { c with handles := c.handles.erase h.call }
  have found₁ : c₁.books.status h.id = some (h.call, st) := found
  obtain ⟨hwork, hstatus⟩ := c₁.cancelReturn_life found₁
  have idle : ∀ j, ¬ (Action.dropHandle h).IsFinish j := by
    rintro j ⟨r, he⟩
    cases he
  refine .settled idle ⟨rfl, rfl⟩ hold found hstatus (fun r k v => ?_) hwork.nextCall
  rw [← holds_of_drop (d := c₁.books) hb hold rfl (fun _ => rfl) r k v]
  exact hwork.holds r k v

/-! ## Steps -/

theorem lifeStep_poll (c : Connection) (hb : c.books.Custody) (t : TaskId) :
    LifeStep c.books (.poll t) (c.step (.poll t)).2.books := by
  have idle : ∀ j, ¬ (Action.poll t).IsFinish j := by
    rintro j ⟨r, he⟩
    cases he
  cases hget : c.tasks.get? t with
  | none =>
      have hnone : c.poll t = (.missing, c) := by simp [poll, hget]
      simp only [step, hnone]
      exact .of_books rfl idle
  | some task =>
      cases hlive : task.guard.any c.isCanceled with
      | true =>
          have hdrop : c.poll t = (.aborted, c.dropTask t) := by simp [poll, hget, hlive]
          simp only [step, hdrop]
          exact c.lifeStep_dropTask hb (fun _ => rfl) idle
      | false =>
          cases howes : task.work.owes with
          | none => exact c.lifeStep_pollOther hb hget hlive howes
          | some owed => exact c.lifeStep_pollReturn hb hget hlive howes

theorem lifeStep_finish (c : Connection) (id : AnswerId) (releaseCaps : Bool) :
    LifeStep c.books (.finish id releaseCaps) (c.finish id releaseCaps).books := by
  cases hid : c.answers.get? id with
  | none =>
      rw [c.finish_of_none releaseCaps hid]
      refine .same ?_ (fun _ => rfl) (fun _ _ _ => Iff.rfl) rfl
      rintro j ⟨r, he⟩
      cases he
      exact (c.books.status_eq_none_iff id).2 hid
  | some a =>
      have found : c.books.status id = some (a.call, a.state) := status_of_get? hid
      obtain ⟨hs, ts, heq⟩ := c.finish_shape releaseCaps hid
      rw [heq]
      exact .finished ⟨releaseCaps, rfl⟩ found (status_putAnswer _ id _) (fun _ _ _ => Iff.rfl) rfl

/-- What is not a finish does one of the things that `LifeStep` lists. -/
theorem lifeStep_idle (c : Connection) (hb : c.books.Custody) (ht : c.TasksBelow) {action : Action}
    (idle : ∀ j, ¬ action.IsFinish j) : LifeStep c.books action (c.step action).2.books := by
  have hfree := ht.taskOwes_nextTask
  cases action with
  | newAnswer id token =>
      cases hid : c.answers.get? id with
      | some a =>
          simp only [step, c.newAnswer_of_live token hid]
          exact .of_books rfl idle
      | none =>
          obtain ⟨admission, ms, hs, heq, -⟩ := c.newAnswer_shape token hid
          simp only [step, heq]
          exact .of_newAnswer hb hid idle rfl rfl rfl rfl (fun _ => rfl) rfl
  | accept id token =>
      have howes : (Work.accept (.unbegun id token)).owes = none := rfl
      exact .of_spawn hfree howes rfl rfl rfl rfl idle
  | disconnect e =>
      have howes : (Work.disconnect e .unbegun).owes = none := rfl
      exact .of_spawn hfree howes rfl rfl rfl rfl idle
  | allocateResults h size =>
      have hshape : LifeStep c.books (.allocateResults h size) (c.allocateResults h.id size).2.books :=
        .of_rewrite idle (c.allocateResults_shape h.id size)
      rw [step_allocateResults_snd]
      split
      · exact hshape
      · exact .of_books rfl idle
  | setBootstrap h cap =>
      have hshape : LifeStep c.books (.setBootstrap h cap) (c.setBootstrap h.id cap).2.books :=
        .of_rewrite idle (c.setBootstrap_shape h.id cap)
      rw [step_setBootstrap_snd]
      split
      · exact hshape
      · exact .of_books rfl idle
  | edit ref change =>
      simp only [step]
      split <;> exact .of_sameWork ⟨rfl, rfl, rfl, rfl⟩ (fun _ => rfl) idle
  | sendReturn h result guard =>
      simp only [step]
      split
      · next hheld => exact c.lifeStep_sendReturn hb ht hheld result guard idle
      · exact .of_books rfl idle
  | dropHandle h =>
      simp only [step]
      split
      · next hheld => exact c.lifeStep_dropHandle hb hheld
      · exact .of_books rfl idle
  | newCaller name mode =>
      simp only [step]
      split <;> exact .of_books rfl idle
  | setPipeline id name =>
      simp only [step]
      split
      · rcases c.setPipeline_shape id name with heq | ⟨a, ha, -, heq⟩
        · rw [heq]
          exact .of_books rfl idle
        · rw [heq]
          exact .of_sameWork ⟨rfl, rfl, rfl, rfl⟩
            (status_of_rewrite (b := c.books) { a with caller := some name } ha rfl rfl rfl) idle
      · exact .of_books rfl idle
  | forward id call =>
      have hbooks := c.books_forward id call
      rw [step_forward_snd]
      exact .of_books hbooks idle
  | acknowledge name count =>
      simp only [step]
      split
      · exact .of_books rfl idle
      · exact .of_books (books_acknowledgeHeld c name _) idle
  | finish id releaseCaps => exact absurd ⟨releaseCaps, rfl⟩ (idle id)
  | poll t => exact c.lifeStep_poll hb t
  | dropTask t =>
      simp only [step]
      split
      · exact c.lifeStep_dropTask hb (fun _ => rfl) idle
      · exact .of_books rfl idle
  | cancel token => exact .of_books rfl idle
  | configure setting => exact .of_books rfl idle
  | gateSend => exact .of_books rfl idle
  | gateShutdown => exact .of_books rfl idle
  | openGate g => exact .of_books rfl idle
  | takeSent => exact .of_books rfl idle

/-- Every step does one of the things that `LifeStep` lists. -/
theorem lifeStep (c : Connection) (hb : c.books.Custody) (ht : c.TasksBelow)
    (action : Action) : LifeStep c.books action (c.step action).2.books := by
  by_cases hfin : ∃ id, action.IsFinish id
  · obtain ⟨id, releaseCaps, rfl⟩ := hfin
    exact c.lifeStep_finish id releaseCaps
  · exact c.lifeStep_idle hb ht (not_exists.1 hfin)

/-! ## All connections -/

theorem custody_initial (options : Options) : (initial options).books.Custody := by
  have hstatus : ∀ id, (initial options).books.status id = none := fun _ => rfl
  have hholds : ∀ p h s, ¬ (initial options).books.Holds p h s := by
    intro p h s hold
    cases p with
    | executor => exact absurd hold.1 (by simp [books, initial])
    | task t => exact absurd hold (by simp [Holds, taskOwes, books, initial])
  refine ⟨?_, ?_, ?_, ?_, ?_, ?_, ?_⟩
  · exact fun hold => absurd hold (hholds _ _ _)
  · exact fun h => absurd h (by simp [hstatus])
  · exact fun hold => absurd hold (hholds _ _ _)
  · exact fun h => absurd h (by simp [hstatus])
  · exact fun h => absurd h (by simp [hstatus])
  · exact fun h => absurd h (by simp [hstatus])
  · exact fun h => absurd h (by simp [hstatus])

theorem Reachable.custody {c : Connection} (hc : Reachable c) : c.books.Custody := by
  induction hc with
  | initial options => exact custody_initial options
  | step action hprev ih => exact (lifeStep _ ih hprev.tasksBelow action).custody ih

theorem Reachable.lifeStep {c : Connection} (hc : Reachable c) (action : Action) :
    LifeStep c.books action (c.step action).2.books :=
  Connection.lifeStep c hc.custody hc.tasksBelow action

end Connection

end Callee
