import Callee.Proofs.Faultless
import Callee.Proofs.Ledger
import Callee.Proofs.SendingOnce

set_option autoImplicit false

/-! # Actions in order

An action is in order if the connection does not come to its end by it, nothing becomes wrong with the
transport, no id is offered while it is in use, no call is given up, no completion is dropped and a finish
is for a call that is there (`isOrderly`). Where nothing has failed yet, such an action goes on without a
failure: it creates a call whose return is reserved, or it settles a call, which is when its return is
accepted, or it does neither (`goesOn`). -/

namespace Callee

/-- The call that was created, as a reply tells. -/
def Reply.created? : Reply → Option Handle
  | .admitted (.created h) | .polled (.admitted (.created h)) => some h
  | _ => none

instance (x : Transport) : Decidable x.Faultless :=
  decidable_of_iff (x.wordLimit = none ∧ x.failReservations = none ∧ x.failSends = none)
    ⟨fun h => ⟨h.1, h.2.1, h.2.2⟩, fun h => ⟨h.1, h.2, h.3⟩⟩

namespace Connection

open Books

/-! ## Runs in order -/

/-- The calls that an action creates. -/
def creates (c : Connection) (action : Action) : List Handle :=
  (c.step action).1.created?.toList

/-- The calls whose finish an action is. -/
def finishes (c : Connection) : Action → List Handle
  | .finish id _ => ((c.answers.get? id).map fun a => ⟨id, a.call⟩).toList
  | _ => []

/-- Whether a piece of work may run: it does not end the connection, and a call that it accepts comes in
    under a free id. -/
def mayRun (c : Connection) : Work → Bool
  | .sendReturn .. => true
  | .accept (.unbegun id _) => !c.answers.contains id
  | .accept (.refusing ..) | .disconnect .. => false

/-- Whether an action is in order. The end of the connection may be announced, but must not begin. -/
def isOrderly (c : Connection) : Action → Bool
  | .newAnswer id _ => !c.answers.contains id
  | .finish id _ => c.answers.contains id
  | .dropHandle h => !c.holds h
  | .poll t =>
      match c.tasks.get? t with
      | some task => !task.guard.any c.isCanceled && c.mayRun task.work
      | none => true
  | .dropTask t =>
      match (c.tasks.get? t).map Task.work with
      | some (.sendReturn ..) => false
      | _ => true
  | .configure setting => (c.transport.set setting).Faultless
  | _ => true

/-- Whether all actions of a run are in order. -/
def runsInOrder : Connection → List Action → Bool
  | _, [] => true
  | c, action :: rest => c.isOrderly action && runsInOrder (c.step action).2 rest

/-! ## One step -/

/-- What an action in order does: nothing fails; it creates calls, each with its record; and it has the
    return accepted of the call that it settles, if it settles one. -/
structure GoesOn (c : Connection) (action : Action) (sent : Option Handle) : Prop where
  proceeds : Proceeds c (c.creates action) sent.toList (c.step action).2
  recorded : ∀ h ∈ c.creates action, h.call = c.nextCall ∧
    ∃ a, (c.step action).2.answers.get? h.id = some a ∧ a.call = h.call
  settles : ∀ h, sent = some h ↔ c.Settles action h

theorem creates_of_other {c : Connection} {action : Action} (hnew : ∀ id token, action ≠ .newAnswer id token)
    (hpoll : ∀ t, action ≠ .poll t) : c.creates action = [] := by
  unfold creates
  cases action with
  | newAnswer id token => exact absurd rfl (hnew id token)
  | poll t => exact absurd rfl (hpoll t)
  | _ =>
      simp only [step]
      repeat' split
      all_goals rfl

/-- An action that creates no call and settles none. -/
theorem goesOn_of_quiet {c : Connection} {action : Action} (hproceeds : Proceeds c [] [] (c.step action).2)
    (hcreates : c.creates action = []) (hnone : ∀ h, ¬ c.Settles action h) : c.GoesOn action none where
  proceeds := by
    rw [hcreates]
    exact hproceeds
  recorded h hh := by
    rw [hcreates] at hh
    exact absurd hh (by simp)
  settles h := by simp [hnone]

theorem not_settles {c : Connection} (hc : Reachable c) {action : Action}
    (hidle : ∀ p h s, c.books.Holds p h s → ¬ action.Ends p h) (h : Handle) : ¬ c.Settles action h := by
  intro hsettles
  obtain ⟨p, s, hold, ends⟩ := ends_of_settles hc hsettles
  exact hidle p h s hold ends

/-- A task that is dropped completes no call. -/
theorem work_of_dropTask {c : Connection} {t : TaskId} {task : Task}
    (ho : c.isOrderly (.dropTask t) = true) (hget : c.tasks.get? t = some task) (h : Handle)
    (stage : ReturnStage) : task.work ≠ .sendReturn h stage := by
  intro hwork
  simp [isOrderly, hget, hwork] at ho

theorem proceeds_dropTask {c : Connection} (hc : c.Faultless) {t : TaskId}
    (ho : c.isOrderly (.dropTask t) = true) : Proceeds c [] [] (c.dropTask t) := by
  have hfree : ∀ d : Connection, d.Faultless → Proceeds d [] [] (d.freeSender t) := by
    intro d hd
    unfold freeSender
    split
    · exact hd.steady rfl rfl rfl rfl .refl (.of_eq rfl)
    · exact hd.refl
  have herase : Proceeds c [] [] { c with tasks := c.tasks.erase t } :=
    hc.steady rfl rfl rfl rfl .refl (.of_eq rfl)
  unfold dropTask
  cases hget : c.tasks.get? t with
  | none => exact hc.refl
  | some task =>
      dsimp only
      split
      · next hwork => exact absurd hwork (work_of_dropTask ho hget _ _)
      · next hwork => exact absurd hwork (work_of_dropTask ho hget _ _)
      · exact herase.trans (hfree _ herase.faultless)

/-- Nothing fails on an action in order that is neither a new call nor a poll. -/
theorem proceeds_other {c : Connection} (hc : Reachable c) (hf : c.Faultless) {action : Action}
    (ho : c.isOrderly action = true) (hnew : ∀ id token, action ≠ .newAnswer id token)
    (hpoll : ∀ t, action ≠ .poll t) : Proceeds c [] [] (c.step action).2 := by
  cases action with
  | newAnswer id token => exact absurd rfl (hnew id token)
  | poll t => exact absurd rfl (hpoll t)
  | accept id token => exact hf.steady rfl rfl rfl rfl .refl (.of_eq rfl)
  | disconnect e => exact hf.steady rfl rfl rfl rfl .refl (.of_eq rfl)
  | cancel token => exact hf.steady rfl rfl rfl rfl .refl (.of_eq rfl)
  | gateSend => exact hf.steady rfl rfl rfl rfl ⟨fun h => ⟨h.1, h.2, h.3⟩, rfl⟩ (.of_eq rfl)
  | gateShutdown => exact hf.steady rfl rfl rfl rfl ⟨fun h => ⟨h.1, h.2, h.3⟩, rfl⟩ (.of_eq rfl)
  | openGate g => exact hf.steady rfl rfl rfl rfl ⟨fun h => ⟨h.1, h.2, h.3⟩, rfl⟩ (.of_eq rfl)
  | takeSent => exact hf.steady rfl rfl rfl rfl ⟨fun h => ⟨h.1, h.2, h.3⟩, rfl⟩ (.of_eq rfl)
  | configure setting =>
      refine hf.steady rfl rfl rfl rfl ⟨fun _ => of_decide_eq_true ho, ?_⟩ (.of_eq rfl)
      cases setting <;> rfl
  | sendReturn h result guard =>
      simp only [step]
      split
      · exact hf.steady rfl rfl rfl rfl .refl (.of_eq rfl)
      · exact hf.refl
  | dropHandle h =>
      have hheld : c.holds h = false := by simpa [isOrderly] using ho
      simp only [step, hheld, Bool.false_eq_true, if_false]
      exact hf.refl
  | dropTask t =>
      simp only [step]
      split
      · exact proceeds_dropTask hf ho
      · exact hf.refl
  | newCaller name mode =>
      simp only [step]
      split
      · exact hf.refl
      · exact hf.steady rfl rfl rfl rfl .refl (.of_eq rfl)
  | setPipeline id name =>
      simp only [step]
      split
      · exact proceeds_setPipeline hf id name
      · exact hf.refl
  | forward id call =>
      have hforward := proceeds_forward hf id call
      rw [step_forward_snd]
      exact hforward
  | acknowledge name count =>
      simp only [step]
      split
      · exact hf.refl
      · exact proceeds_acknowledgeHeld hf name _
  | finish id releaseCaps =>
      obtain ⟨a, ha⟩ := Option.isSome_iff_exists.1 ho
      exact proceeds_finish hf hc.reckoning ha releaseCaps
  | edit ref change =>
      have hedit := MessageStore.unlimited_edit hf.unlimited ref change
      simp only [step]
      split <;> next heq =>
        rw [heq] at hedit
        exact hf.quiet rfl .refl hedit (fun hx => hf.reserved hx) (Nat.zero_add _).symm (.of_eq rfl)
  | allocateResults h size =>
      have hbuild := proceeds_allocateResults hf h.id size
      rw [step_allocateResults_snd]
      split
      · exact hbuild
      · exact hf.refl
  | setBootstrap h cap =>
      have hbuild := proceeds_setBootstrap hf h.id cap
      rw [step_setBootstrap_snd]
      split
      · exact hbuild
      · exact hf.refl

/-- An action in order that is neither a new call nor a poll settles no call. -/
theorem not_settles_of_other {c : Connection} (hc : Reachable c) {action : Action}
    (ho : c.isOrderly action = true) (hpoll : ∀ t, action ≠ .poll t) (h : Handle) :
    ¬ c.Settles action h := by
  refine not_settles hc (fun p k s hold ends => ?_) h
  cases action with
  | poll t => exact absurd rfl (hpoll t)
  | dropHandle k' =>
      obtain ⟨rfl, rfl⟩ := ends
      have hheld : c.holds k' = true := decide_eq_true hold.1
      simp [isOrderly, hheld] at ho
  | dropTask t =>
      obtain rfl := ends
      obtain ⟨task, hget, howes⟩ := Option.bind_eq_some_iff.1 hold
      obtain ⟨stage, hwork, -⟩ := stage_of_owes howes
      exact work_of_dropTask ho hget k stage hwork
  | _ => exact ends

/-! ## Polls -/

theorem Proceeds.of_tasks {c d : Connection} {made sent : List Handle} (h : Proceeds c made sent d)
    (ts : Table TaskId Task) : Proceeds c made sent { d with tasks := ts } := by
  have hlast : Proceeds d [] [] { d with tasks := ts } :=
    h.faultless.steady rfl rfl rfl rfl .refl (.of_eq rfl)
  exact h.trans hlast

/-- Polling a completion creates no call. -/
theorem creates_of_pollReturn {c : Connection} {t : TaskId} {h : Handle} {stage : ReturnStage}
    {guard : Option Token} (hget : c.tasks.get? t = some ⟨.sendReturn h stage, guard⟩)
    (hlive : guard.any c.isCanceled = false) : c.creates (.poll t) = [] := by
  unfold creates
  rw [(step_poll_of_live hget hlive).1]
  simp only [run]
  split <;> rfl

/-- The completion of a call that owes its return is polled. -/
theorem goesOn_pollReturn {c : Connection} (hc : Reachable c) (hf : c.Faultless) {t : TaskId} {h : Handle}
    {stage : ReturnStage} {s : HandleStage} {guard : Option Token}
    (hget : c.tasks.get? t = some ⟨.sendReturn h stage, guard⟩)
    (hlive : guard.any c.isCanceled = false) (howes : stage.owes = some s) :
    ∃ sent, c.GoesOn (.poll t) sent := by
  have hold : c.books.Holds (.task t) h s := by
    refine (taskOwes_of_get? (b := c.books) hget).trans ?_
    simp [Work.owes, howes]
  have hcreates := creates_of_pollReturn hget hlive
  have hholds := c.holds_pollReturn hc.custody hget hlive howes
  have hlooked := pollReturn_looked hf hc.addressed hc.custody t hold howes fun send f heq =>
    hc.returnFor_of_sending t h send f guard (heq ▸ hget)
  obtain ⟨ts, hstep⟩ := (step_poll_of_live hget hlive).2
  rw [run_sendReturn] at hstep
  rcases hpoll : c.pollReturn t h stage with ⟨left, d⟩
  rw [hpoll] at hlooked hholds hstep
  cases hlooked with
  | @sending send f _ proceeds =>
      -- the handle stays in the task
      refine ⟨none, goesOn_of_quiet (hstep ▸ proceeds.of_tasks ts) hcreates fun k hsettles => ?_⟩
      obtain ⟨⟨p, v, hk⟩, hgone⟩ := (settles_iff c _ k).1 hsettles
      by_cases hkh : k = h
      · exact hgone ⟨.task t, .sending f, (hholds _ _ _).2 (Or.inr ⟨rfl, hkh, rfl⟩)⟩
      · exact hgone ⟨p, v, (hholds _ _ _).2 (Or.inl ⟨hk, hkh⟩)⟩
  | @settled left _ proceeds =>
      have hnone : (left.map ReturnStage.draining).bind ReturnStage.owes = none := by
        cases left <;> rfl
      refine ⟨some h, ⟨?_, ?_, fun k => ?_⟩⟩
      · rw [hcreates, hstep]
        exact proceeds.of_tasks ts
      · rw [hcreates]
        simp
      · rw [settles_iff]
        constructor
        · intro hk
          obtain rfl := Option.some.inj hk
          refine ⟨⟨.task t, s, hold⟩, ?_⟩
          rintro ⟨p, v, hlive'⟩
          rcases (hholds _ _ _).1 hlive' with ⟨-, hne⟩ | ⟨-, -, hleft⟩
          · exact hne rfl
          · exact absurd (hnone.symm.trans hleft) (by simp)
        · rintro ⟨⟨p, v, hk⟩, hgone⟩
          by_cases hkh : k = h
          · rw [hkh]
          · exact absurd ⟨p, v, (hholds _ _ _).2 (Or.inl ⟨hk, hkh⟩)⟩ hgone

/-- A poll of a task that owes no return settles no call. -/
theorem not_settles_of_poll {c : Connection} (hc : Reachable c) {t : TaskId}
    (howes : c.books.taskOwes t = none) (h : Handle) : ¬ c.Settles (.poll t) h := by
  refine not_settles hc (fun p k s hold ends => ?_) h
  obtain rfl := ends
  exact absurd (howes.symm.trans hold) (by simp)

/-! ## New calls -/

/-- A call comes in under a free id, by itself or in a task. -/
theorem goesOn_of_newAnswer {c : Connection} (hf : c.Faultless) {action : Action} {id : AnswerId}
    (hfresh : c.answers.get? id = none) (token : Token) (ts : Table TaskId Task)
    (hstep : (c.step action).2 = { (c.newAnswer id token).2 with tasks := ts })
    (hreply : (c.step action).1.created? = some ⟨id, c.nextCall⟩)
    (hnone : ∀ h, ¬ c.Settles action h) : c.GoesOn action none := by
  have hcreates : c.creates action = [⟨id, c.nextCall⟩] := by
    unfold creates
    rw [hreply]
    rfl
  refine ⟨?_, fun h hh => ?_, by simp [hnone]⟩
  · rw [hcreates, hstep]
    exact (proceeds_newAnswer hf hfresh token).of_tasks ts
  · rw [hcreates] at hh
    obtain rfl := List.mem_singleton.1 hh
    obtain ⟨e, ms, hnew, -⟩ := newAnswer_of_faultless hf hfresh token
    rw [hstep, hnew]
    exact ⟨rfl, _, Table.get?_insert_self _ _ _, rfl⟩

theorem goesOn_newAnswer {c : Connection} (hc : Reachable c) (hf : c.Faultless) {id : AnswerId}
    {token : Token} (ho : c.isOrderly (.newAnswer id token) = true) :
    c.GoesOn (.newAnswer id token) none := by
  have hfresh : c.answers.get? id = none := by
    simpa [isOrderly, Table.contains] using ho
  obtain ⟨e, ms, hnew, -⟩ := newAnswer_of_faultless hf hfresh token
  have hstep : c.step (.newAnswer id token) =
      (.admitted (.created ⟨id, c.nextCall⟩), (c.newAnswer id token).2) := by
    simp only [step, hnew]
  refine goesOn_of_newAnswer hf hfresh token (c.newAnswer id token).2.tasks (congrArg Prod.snd hstep) ?_
    (not_settles hc fun _ _ _ _ ends => ends)
  rw [hstep]
  rfl

/-! ## Actions in order -/

theorem goesOn_poll {c : Connection} (hc : Reachable c) (hf : c.Faultless) {t : TaskId}
    (ho : c.isOrderly (.poll t) = true) : ∃ sent, c.GoesOn (.poll t) sent := by
  cases hget : c.tasks.get? t with
  | none =>
      have hstep : c.step (.poll t) = (.polled .missing, c) := by simp [step, poll, hget]
      have howes : c.books.taskOwes t = none := by
        unfold taskOwes
        rw [show c.books.tasks.get? t = none from hget]
        rfl
      refine ⟨none, goesOn_of_quiet ?_ ?_ (not_settles_of_poll hc howes)⟩
      · rw [hstep]
        exact hf.refl
      · unfold creates
        rw [hstep]
        rfl
  | some task =>
      obtain ⟨work, guard⟩ := task
      obtain ⟨hlive, hmay⟩ : guard.any c.isCanceled = false ∧ c.mayRun work = true := by
        simpa [isOrderly, hget] using ho
      have howes : c.books.taskOwes t = work.owes := taskOwes_of_get? (b := c.books) hget
      obtain ⟨hreply, ts, hstep⟩ := step_poll_of_live hget hlive
      cases work with
      | disconnect e stage => exact absurd hmay (by simp [mayRun])
      | accept stage =>
          cases stage with
          | refusing e stage => exact absurd hmay (by simp [mayRun])
          | unbegun id token =>
              have hfresh : c.answers.get? id = none := by
                simpa [mayRun, Table.contains] using hmay
              obtain ⟨e, ms, hnew, -⟩ := newAnswer_of_faultless hf hfresh token
              have hrun : c.run t (.accept (.unbegun id token)) =
                  (.inl (.admitted (.created ⟨id, c.nextCall⟩)), (c.newAnswer id token).2) := by
                simp only [run, pollAccept, hnew]
              rw [hrun] at hstep hreply
              refine ⟨none, goesOn_of_newAnswer hf hfresh token ts hstep ?_ (not_settles_of_poll hc howes)⟩
              rw [hreply]
              rfl
      | sendReturn h stage =>
          cases stage with
          | unbegun result => exact goesOn_pollReturn hc hf hget hlive rfl
          | sending send f => exact goesOn_pollReturn hc hf hget hlive rfl
          | draining w =>
              refine ⟨none, goesOn_of_quiet ?_ (creates_of_pollReturn hget hlive)
                (not_settles_of_poll hc howes)⟩
              rw [run_sendReturn] at hstep
              rw [hstep]
              exact (proceeds_awaitDeliveries hf h w).of_tasks ts

/-- Every action in order goes on. -/
theorem goesOn {c : Connection} (hc : Reachable c) (hf : c.Faultless) {action : Action}
    (ho : c.isOrderly action = true) : ∃ sent, c.GoesOn action sent := by
  by_cases hpoll : ∃ t, action = .poll t
  · obtain ⟨t, rfl⟩ := hpoll
    exact goesOn_poll hc hf ho
  · by_cases hnew : ∃ id token, action = .newAnswer id token
    · obtain ⟨id, token, rfl⟩ := hnew
      exact ⟨none, goesOn_newAnswer hc hf ho⟩
    · simp only [not_exists] at hpoll hnew
      exact ⟨none, goesOn_of_quiet (proceeds_other hc hf ho hnew hpoll) (creates_of_other hnew hpoll)
        (not_settles_of_other hc ho hpoll)⟩

end Connection

end Callee
