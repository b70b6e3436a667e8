import Callee.Proofs.Unsent
import Mathlib.Data.List.Induction

set_option autoImplicit false

/-! # Which returns go out

A return goes out once at most; the statements here say when it does, and to whom. What goes out for a
call is its own return, whatever has become of its id (`returnFor_of_sends_after`). A completion whose
return may go out when it is polled first hands it over before it is finished, however long it waits in
between (`sends_of_completed`), and every other call is left without one (`sends_of_missed`).
`Reachable.sendsOnce` puts this together. -/

namespace Callee.Connection

open Books

/-! ## Whom a return goes to -/

theorem envelope_of_pollSend {c : Connection} {t : TaskId} {call : Option CallId} {send left : SendStage}
    (h : (c.pollSend t call send).1 = .pending left) : left.envelope = send.envelope := by
  have htransmit : ∀ (d : Connection) (e : Envelope) (gate : Option GateId),
      (d.transmit call e gate).1 = .pending left → left.envelope = e := by
    intro d e gate hpending
    unfold transmit at hpending
    split at hpending
    · obtain rfl := SendPoll.pending.inj hpending
      rfl
    · dsimp only at hpending
      split at hpending <;> exact absurd hpending (by simp)
  cases send with
  | transmitting e gate => exact htransmit c e gate h
  | waiting e =>
      unfold pollSend at h
      cases hsender : c.sender with
      | some u =>
          rw [hsender] at h
          obtain rfl := SendPoll.pending.inj h
          rfl
      | none =>
          rw [hsender] at h
          exact htransmit _ e _ h

theorem envelope_of_awaitReturn {c : Connection} {t : TaskId} {h : Handle} {send left : SendStage}
    {f f' : Bool} (hleft : (c.awaitReturn t h send f).1 = some (.sending left f')) :
    left.envelope = send.envelope := by
  have hsettled : ∀ d : Connection, (d.settleReturn h).1 ≠ some (.sending left f') := by
    intro d hsome
    obtain ⟨w, heq⟩ := draining_of_awaitDeliveries hsome
    exact absurd heq (by simp)
  unfold awaitReturn at hleft
  split at hleft
  · next heq =>
      obtain ⟨rfl, -⟩ := ReturnStage.sending.inj (Option.some.inj hleft)
      exact envelope_of_pollSend (congrArg Prod.fst heq)
  · exact absurd hleft (hsettled _)
  · exact absurd hleft (hsettled _)

/-- What a completion has on its way is the return of its call. -/
theorem Reachable.returnFor_of_sending {c : Connection} (hc : Reachable c) : ∀ t h send f guard,
    c.tasks.get? t = some ⟨.sendReturn h (.sending send f), guard⟩ →
    ReturnFor h.id send.envelope.root := by
  induction hc with
  | initial options => exact fun t h send f guard hget => absurd hget (by simp [Connection.initial])
  | @step c action hprev ih =>
      intro t h send f guard hget
      cases c.taskStep action hget with
      | kept before idle => exact ih t h send f guard before
      | spawned number fresh => exact fresh.elim
      | @ran before work isPoll found live left task =>
          obtain rfl := (Task.mk.inj task).1
          obtain ⟨work, guard'⟩ := before
          obtain ⟨stage, rfl, hleft⟩ := left_of_run left
          cases stage with
          | draining w =>
              obtain ⟨w', heq⟩ := draining_of_awaitDeliveries hleft
              exact absurd heq (by simp)
          | sending send' f' =>
              rw [envelope_of_awaitReturn hleft]
              exact ih t h send' f' guard' found
          | unbegun result =>
              have hold : c.books.Holds (.task t) h .building := taskOwes_of_get? (b := c.books) found
              obtain ⟨a, ha, -⟩ := hprev.custody.found_at hold
              unfold pollReturn at hleft
              dsimp only at hleft
              split at hleft
              · exact absurd hleft (by simp)
              · next heq =>
                  rw [envelope_of_awaitReturn hleft]
                  rcases c.envelope_beginReturn ha (fun e => hprev.addressed h.id a e ha) result heq with
                    ⟨e', henv, hfor, -⟩ | ⟨hnone, -⟩
                  · obtain rfl := Option.some.inj henv
                    exact hfor
                  · exact absurd hnone (by simp)
              · obtain ⟨w', heq⟩ := draining_of_awaitDeliveries hleft
                exact absurd heq (by simp)

/-- So is what it has on its way once it has begun. -/
theorem returnFor_of_onItsWay {c : Connection} (hc : Reachable c) {t : TaskId} {h : Handle}
    {stage : ReturnStage} {guard : Option Token} {call : CallId} {e : Envelope}
    (hget : c.tasks.get? t = some ⟨.sendReturn h stage, guard⟩)
    (hway : c.onItsWay (.sendReturn h stage) = some (call, .waiting e)) : ReturnFor h.id e.root := by
  cases stage with
  | draining w => exact absurd hway (by simp [onItsWay])
  | sending send f =>
      obtain ⟨-, rfl⟩ := Prod.mk.inj (Option.some.inj hway)
      exact hc.returnFor_of_sending t h (.waiting e) f guard hget
  | unbegun result =>
      rcases onItsWay_of_unbegun hc hget with ⟨d, hsome, haddress, -⟩ | ⟨hnone, -⟩
      · obtain ⟨-, hsend⟩ := Prod.mk.inj (Option.some.inj (hsome.symm.trans hway))
        obtain rfl := SendStage.waiting.inj hsend
        exact haddress
      · exact absurd (hnone.symm.trans hway) (by simp)

/-- What an action hands over is the return of a call whose record stands. -/
theorem returnFor_of_handsOver {c : Connection} (hc : Reachable c) {action : Action} {call : CallId}
    {m : Message} (hin : (call, m) ∈ c.handsOver action) :
    ∃ id a, c.answers.get? id = some a ∧ a.call = call ∧ ReturnFor id m.root := by
  obtain ⟨t, ⟨work, guard⟩, e, rfl, hget, -, hway, -, rfl⟩ := (c.mem_handsOver_iff _ _ _).1 hin
  obtain ⟨h, s, howes, rfl⟩ := owes_of_onItsWay hway
  obtain ⟨stage, rfl, -⟩ := stage_of_owes howes
  have hold : c.books.Holds (.task t) h s := (taskOwes_of_get? (b := c.books) hget).trans howes
  obtain ⟨a, ha, hcall, -⟩ := hc.custody.found_at hold
  exact ⟨h.id, a, ha, hcall, returnFor_of_onItsWay hc hget hway⟩

/-- What was sent for a call whose record stands is its return. -/
theorem Reachable.returnFor_of_sends {c : Connection} (hc : Reachable c) :
    ∀ id a m, c.answers.get? id = some a → m ∈ c.sends a.call → ReturnFor id m.root := by
  induction hc with
  | initial options => exact fun id a m ha _ => absurd ha (by simp [Connection.initial])
  | @step c action hprev ih =>
      intro id b m hb hm
      rcases (c.mem_sends_step_iff action b.call m).1 hm with hin | hbefore
      · obtain ⟨id', a, ha, hcall, haddress⟩ := returnFor_of_handsOver hprev hin
        obtain ⟨rfl, -⟩ := (c.ages_step action).same_record hprev Ages.call ha hb hcall.symm
        exact haddress
      · have hlt := (hprev.closed_of_sends (List.ne_nil_of_mem hbefore)).1
        rcases (c.ages_step action).2 id b hb with ⟨a, ha, hages⟩ | hlate
        · exact ih id a m ha (hages.call ▸ hbefore)
        · exact absurd hlt (Nat.not_lt_of_le hlate)

/-- What is sent for a call at any time is its return. -/
theorem returnFor_of_sends_after {c : Connection} (hc : Reachable c) {id : AnswerId} {a : Answer}
    (ha : c.answers.get? id = some a) (actions : List Action) {m : Message}
    (hm : m ∈ (c.after actions).sends a.call) : ReturnFor id m.root := by
  induction actions using List.reverseRecOn with
  | nil => exact hc.returnFor_of_sends id a m ha hm
  | append_singleton actions action ih =>
      rw [after_append] at hm
      rcases (mem_sends_step_iff _ action a.call m).1 hm with hin | hbefore
      · obtain ⟨id', b, hb, hcall, haddress⟩ := returnFor_of_handsOver (hc.after actions) hin
        obtain ⟨rfl, -⟩ := keptBy_after hc actions ha hb hcall
        exact haddress
      · exact ih hbefore

/-! ## Completions -/

/-- A task is polled over a run until it is finished. -/
def FinishesIn (c : Connection) (t : TaskId) (actions : List Action) : Prop :=
  ∃ before more, actions = before ++ .poll t :: more ∧
    ((c.after before).step (.poll t)).1 = .polled .finished

theorem finishesIn_cons_iff (c : Connection) (t : TaskId) (action : Action) (rest : List Action) :
    c.FinishesIn t (action :: rest) ↔
      action = .poll t ∧ (c.step action).1 = .polled .finished ∨
        (c.step action).2.FinishesIn t rest :=
  pollsTo_cons_iff (· = .polled .finished) c t action rest

/-- A task that is gone is not finished any more. -/
theorem not_finishesIn_of_gone {c : Connection} {t : TaskId} (hlt : t < c.nextTask)
    (hgone : c.tasks.get? t = none) (actions : List Action) : ¬ c.FinishesIn t actions := by
  intro hfin
  have hmissing := missing_of_pollsTo (p := (· = .polled .finished)) hlt hgone hfin
  exact absurd hmissing (by simp)

/-- Polling a task that has a return waiting hands it over if the way is free, and else leaves it
    waiting. -/
theorem poll_of_onItsWay {c : Connection} (hc : Reachable c) {t : TaskId} {h : Handle}
    {stage : ReturnStage} {guard : Option Token} {e : Envelope}
    (hget : c.tasks.get? t = some ⟨.sendReturn h stage, guard⟩)
    (hlive : guard.any c.isCanceled = false)
    (hway : c.onItsWay (.sendReturn h stage) = some (h.call, .waiting e)) :
    (∀ more, ((c.after (.poll t :: more)).sends h.call).length = 1) ∨
      (c.step (.poll t)).1 = .polled .pending ∧ (c.step (.poll t)).2.QueuedAt t h e := by
  by_cases hfree : c.sender = none
  · refine Or.inl fun more => ?_
    have hin : (h.call, (c.begun (.sendReturn h stage)).messages.message e) ∈ c.handsOver (.poll t) :=
      (c.mem_handsOver_iff _ _ _).2 ⟨t, _, e, rfl, hget, hlive, hway, hfree, rfl⟩
    have hover : ¬ (c.step (.poll t)).2.Unsent h.call := fun hunsent =>
      (unsent_step hc hunsent).2 _ hin
    have hsome := (c.mem_sends_step_iff (.poll t) h.call _).2 (Or.inl hin)
    rw [after_cons, sends_after (.step _ hc) hover]
    exact Nat.le_antisymm (Reachable.length_sends_le (.step _ hc) h.call)
      (List.length_pos_of_mem hsome)
  · obtain ⟨f, hrun⟩ := run_of_busy t hway hfree
    have hpoll : c.poll t = (.pending, { c.begun (.sendReturn h stage) with
        tasks := (c.begun (.sendReturn h stage)).tasks.insert t
          ⟨.sendReturn h (.sending (.waiting e) f), guard⟩ }) := by
      simp only [poll, hget, hlive, Bool.false_eq_true, if_false, hrun]
    refine Or.inr ⟨by simp only [step, hpoll], f, guard, ?_⟩
    simp only [step, hpoll, Table.get?_insert_self]

/-- A poll that a task outlasts finds it live. -/
theorem live_of_finishesIn {c : Connection} (hc : Reachable c) {t : TaskId} {task : Task}
    {rest : List Action} (hget : c.tasks.get? t = some task)
    (hfin : c.FinishesIn t (.poll t :: rest)) : task.guard.any c.isCanceled = false := by
  cases hcancel : task.guard.any c.isCanceled with
  | false => rfl
  | true =>
      have hdrop := step_poll_of_canceled hget hcancel
      have hgone : (c.step (.poll t)).2.tasks.get? t = none := by
        rw [hdrop, c.tasks_dropTask hget, Table.get?_erase_self]
      have hlt : t < (c.step (.poll t)).2.nextTask :=
        Nat.lt_of_lt_of_le (hc.tasksBelow t _ hget) (tasksFrom_rule.step c _).1
      rcases (c.finishesIn_cons_iff t _ rest).1 hfin with ⟨-, hnow⟩ | hlater
      · exact absurd (hcancel.symm.trans (live_of_finished hget hnow)) (by simp)
      · exact absurd hlater (not_finishesIn_of_gone hlt hgone rest)

/-- A completion whose return waits hands it over before it is finished. -/
theorem sent_of_queuedAt {c : Connection} (hc : Reachable c) {t : TaskId} {h : Handle} {e : Envelope}
    (hq : c.QueuedAt t h e) (actions : List Action) (hfin : c.FinishesIn t actions) :
    ((c.after actions).sends h.call).length = 1 := by
  induction actions generalizing c with
  | nil =>
      obtain ⟨before, more, heq, -⟩ := hfin
      exact absurd heq (by simp)
  | cons action rest ih =>
      obtain ⟨f, guard, hget⟩ := hq
      by_cases hpoll : action = .poll t
      · subst hpoll
        rcases poll_of_onItsWay hc hget (live_of_finishesIn hc hget hfin) rfl with
          hsent | ⟨hpending, hq'⟩
        · exact hsent rest
        · refine ih (.step _ hc) hq' (((c.finishesIn_cons_iff t _ rest).1 hfin).resolve_left ?_)
          simp [hpending]
      · have hlater := ((c.finishesIn_cons_iff t _ rest).1 hfin).resolve_left fun h => hpoll h.1
        have hlt : t < c.nextTask := hc.tasksBelow t _ hget
        cases hget' : (c.step action).2.tasks.get? t with
        | none =>
            have hlt' := Nat.lt_of_lt_of_le hlt (tasksFrom_rule.step c action).1
            exact absurd hlater (not_finishesIn_of_gone hlt' hget' rest)
        | some task =>
            cases c.taskStep action hget' with
            | kept before idle =>
                obtain rfl := Option.some.inj (hget.symm.trans before)
                exact ih (.step action hc) ⟨f, guard, hget'⟩ hlater
            | spawned number fresh => exact absurd hlt (number ▸ Nat.lt_irrefl _)
            | ran isPoll found live left task => exact absurd isPoll hpoll

/-- A completion whose return may go out when it is polled first hands it over before it is finished. -/
theorem sends_of_completed {c : Connection} (hc : Reachable c) {t : TaskId} {h : Handle}
    {result : Except Error Unit} {guard : Option Token} {more : List Action}
    (hget : c.tasks.get? t = some ⟨.sendReturn h (.unbegun result), guard⟩)
    (hsend : c.Sendable h result) (hfin : c.FinishesIn t (.poll t :: more)) :
    ((c.after (.poll t :: more)).sends h.call).length = 1 := by
  rcases onItsWay_of_unbegun hc hget with ⟨e, hway, -, -⟩ | ⟨-, hnot⟩
  · rcases poll_of_onItsWay hc hget (live_of_finishesIn hc hget hfin) hway with
      hsent | ⟨hpending, hq⟩
    · exact hsent more
    · refine sent_of_queuedAt (.step _ hc) hq more
        (((c.finishesIn_cons_iff t _ more).1 hfin).resolve_left ?_)
      simp [hpending]
  · exact absurd hsend hnot

/-! ## Returns that never go out -/

/-- A handle that is still building keeps its answer open. -/
theorem not_closed_of_building {c : Connection} (hc : Reachable c) {p : Holder} {h : Handle}
    (hold : c.books.Holds p h .building) : ¬ c.Closed h.call := by
  intro hclosed
  obtain ⟨a, ha, hcall, -, hopen⟩ := hc.custody.found_at hold
  rw [hclosed.2 h.id a ha hcall] at hopen
  exact absurd hopen (by simp)

/-- Nothing was sent for a call that has yet to complete. -/
theorem sends_of_building {c : Connection} (hc : Reachable c) {p : Holder} {h : Handle}
    (hold : c.books.Holds p h .building) : c.sends h.call = [] :=
  Classical.not_not.1 fun hsent => not_closed_of_building hc hold (hc.closed_of_sends hsent)

/-- If the step that closes an answer finds no return to go on with, none ever goes out. -/
theorem sends_of_missed {c : Connection} (hc : Reachable c) {action : Action} {p : Holder} {h : Handle}
    (hold : c.books.Holds p h .building) (hclosed : (c.step action).2.Closed h.call)
    (hmissed : ∀ t task e, action = .poll t → c.tasks.get? t = some task →
      task.guard.any c.isCanceled = false → c.onItsWay task.work ≠ some (h.call, .waiting e))
    (more : List Action) : (c.after (action :: more)).sends h.call = [] := by
  have hbefore : c.sends h.call = [] := sends_of_building hc hold
  have hnot : ∀ m, (h.call, m) ∉ c.handsOver action := by
    intro m hin
    obtain ⟨t, task, e, hpoll, hget, hlive, hway, -, -⟩ := (c.mem_handsOver_iff _ _ _).1 hin
    exact hmissed t task e hpoll hget hlive hway
  have hover : ¬ (c.step action).2.Unsent h.call := by
    rintro (hnew | hreturn | ⟨t, k, e, ⟨f, guard, hget⟩, hcall⟩)
    · exact Nat.not_lt_of_le hnew hclosed.1
    · exact hclosed.not_hasReturn (.step action hc) hreturn
    · cases c.taskStep action hget with
      | spawned number fresh => exact fresh.elim
      | @ran before work isPoll found live left task =>
          obtain rfl := (Task.mk.inj task).1
          obtain ⟨-, hway, -⟩ := waiting_of_run left
          exact hmissed t before e isPoll found live (hcall ▸ hway)
      | kept before idle =>
          -- the handle cannot wait in a task and build at the same time
          have hold' : c.books.Holds (.task t) k (.sending f) := taskOwes_of_get? (b := c.books) before
          obtain ⟨rfl, rfl⟩ := hc.holds_unique hold hold' hcall
          exact absurd (hold.symm.trans hold') (by simp)
  rw [after_cons, sends_after (.step action hc) hover, sends_step_of_not_mem hnot]
  exact hbefore

/-- A call without a reserved return has a record that holds none. -/
theorem newAnswer_unsendable {c : Connection} {id : AnswerId} {token : Token} {h : Handle} {e : Error}
    (hreply : (c.newAnswer id token).1 = .unsendable h e) :
    (c.newAnswer id token).2.answers.get? h.id = some { call := h.call, token := token } := by
  unfold newAnswer at hreply ⊢
  split
  · next hin =>
      rw [if_pos hin] at hreply
      exact absurd hreply (by simp)
  · next hfree =>
      rw [if_neg hfree] at hreply
      generalize c.reserveReturn id = r at hreply ⊢
      obtain ⟨reserved, c₁⟩ := r
      cases reserved with
      | ok envelope => exact absurd hreply (by simp)
      | error x =>
          obtain ⟨rfl, -⟩ := Admission.unsendable.inj hreply
          exact Table.get?_insert_self _ _ _

/-- A completion that is dropped, or cancelled, before it was polled hands nothing over. -/
theorem sends_of_dropped {c : Connection} (hc : Reachable c) {t : TaskId} {h : Handle}
    {result : Except Error Unit} {guard : Option Token} {action : Action}
    (hget : c.tasks.get? t = some ⟨.sendReturn h (.unbegun result), guard⟩)
    (haction : action = .dropTask t ∨ action = .poll t ∧ guard.any c.isCanceled = true)
    (more : List Action) : (c.after (action :: more)).sends h.call = [] := by
  have hold : c.books.Holds (.task t) h .building := taskOwes_of_get? (b := c.books) hget
  have hdrop : (c.step action).2 = c.dropTask t := by
    rcases haction with rfl | ⟨rfl, hcancel⟩
    · exact congrArg Prod.snd (step_dropTask_of_get? hget)
    · exact congrArg Prod.snd (step_poll_of_canceled hget hcancel)
  refine sends_of_missed hc hold (hdrop ▸ closed_of_dropTask hc hget rfl) ?_ more
  rintro u task e rfl hget' hlive
  rcases haction with heq | ⟨heq, hcancel⟩
  · exact absurd heq (by simp)
  · obtain rfl := Action.poll.inj heq
    obtain rfl := Option.some.inj (hget.symm.trans hget')
    exact absurd (hcancel.symm.trans hlive) (by simp)

/-- Nor does one whose return may not go out when it is polled first. -/
theorem sends_of_withheld {c : Connection} (hc : Reachable c) {t : TaskId} {h : Handle}
    {result : Except Error Unit} {guard : Option Token}
    (hget : c.tasks.get? t = some ⟨.sendReturn h (.unbegun result), guard⟩)
    (hnot : ¬ c.Sendable h result) (more : List Action) :
    (c.after (.poll t :: more)).sends h.call = [] := by
  have hold : c.books.Holds (.task t) h .building := taskOwes_of_get? (b := c.books) hget
  cases hlive : guard.any c.isCanceled with
  | true => exact sends_of_dropped hc hget (Or.inr ⟨rfl, hlive⟩) more
  | false =>
      refine sends_of_missed hc hold (closed_of_poll hc hget hlive rfl) ?_ more
      intro u task e hpoll hget' _ hway
      obtain rfl := Action.poll.inj hpoll
      obtain rfl := Option.some.inj (hget.symm.trans hget')
      rcases onItsWay_of_unbegun hc hget with ⟨-, -, -, hsend⟩ | ⟨hnone, -⟩
      · exact hnot hsend
      · exact absurd (hnone.symm.trans hway) (by simp)

theorem admission_of_refuse {e e' : Error} {r : Option DisconnectStage × Connection} {h : Handle} :
    (refuse e r).1 ≠ .inl (.unsendable h e') := by
  obtain ⟨stage, c⟩ := r
  cases stage <;> simp [refuse]

/-- A call that is admitted in a task is admitted like any other. -/
theorem newAnswer_of_run {c : Connection} {t : TaskId} {work : Work} {h : Handle} {e : Error}
    (hrun : (c.run t work).1 = .inl (.admitted (.unsendable h e))) :
    ∃ id token, c.newAnswer id token = (.unsendable h e, (c.run t work).2) := by
  cases work with
  | sendReturn k stage =>
      simp only [run] at hrun
      split at hrun <;> exact absurd hrun (by simp)
  | disconnect x stage =>
      simp only [run] at hrun
      split at hrun <;> exact absurd hrun (by simp)
  | accept stage =>
      have hpoll : c.pollAccept t stage = (.inl (.unsendable h e), (c.run t (.accept stage)).2) := by
        simp only [run] at hrun ⊢
        split at hrun
        · exact absurd hrun (by simp)
        · next admission c₁ heq =>
            simp only [Sum.inl.injEq, TaskPoll.admitted.injEq] at hrun
            rw [heq, hrun]
      cases stage with
      | refusing x stage =>
          exact absurd (congrArg Prod.fst hpoll) admission_of_refuse
      | unbegun id token =>
          refine ⟨id, token, ?_⟩
          simp only [pollAccept] at hpoll
          split at hpoll
          · split at hpoll
            · exact absurd (congrArg Prod.fst hpoll) admission_of_refuse
            · exact absurd (congrArg Prod.fst hpoll) (by simp)
          · next admission c₁ hne heq =>
              rw [heq]
              obtain ⟨hadmission, hc₁⟩ := Prod.mk.inj hpoll
              rw [Sum.inl.inj hadmission, hc₁]

/-- A step that admits a call without a reserved return adds it, and sees to its own task. -/
theorem step_of_unsendable {c : Connection} {action : Action} {h : Handle} {e : Error}
    (hreply : (c.step action).1 = .admitted (.unsendable h e) ∨
      (c.step action).1 = .polled (.admitted (.unsendable h e))) :
    ∃ id token ts, (c.newAnswer id token).1 = .unsendable h e ∧
      (c.step action).2 = { (c.newAnswer id token).2 with tasks := ts } := by
  cases action with
  | newAnswer id token =>
      rcases hreply with hreply | hreply
      · exact ⟨id, token, _, Reply.admitted.inj hreply, rfl⟩
      · exact absurd hreply (by simp [step])
  | poll t =>
      have hpoll : (c.poll t).1 = .admitted (.unsendable h e) := by
        rcases hreply with hreply | hreply
        · exact absurd hreply (by simp [step])
        · exact Reply.polled.inj hreply
      show ∃ id token ts, (c.newAnswer id token).1 = .unsendable h e ∧
        (c.poll t).2 = { (c.newAnswer id token).2 with tasks := ts }
      unfold poll at hpoll ⊢
      split at hpoll
      · exact absurd hpoll (by simp)
      · next task hget =>
          split at hpoll
          · exact absurd hpoll (by simp)
          · next hlive =>
              split at hpoll
              · exact absurd hpoll (by simp)
              · next outcome c₁ heq =>
                  obtain rfl : outcome = .admitted (.unsendable h e) := hpoll
                  obtain ⟨id, token, hnew⟩ := newAnswer_of_run (congrArg Prod.fst heq)
                  rw [heq] at hnew
                  rw [if_neg hlive]
                  exact ⟨id, token, c₁.tasks.erase t, congrArg Prod.fst hnew, by rw [hnew]⟩
  | _ =>
      simp only [step] at hreply
      repeat' split at hreply
      all_goals exact absurd hreply (by simp)

/-- The record of such a call. -/
theorem record_of_unsendable {c : Connection} {action : Action} {h : Handle} {e : Error}
    (hreply : (c.step action).1 = .admitted (.unsendable h e) ∨
      (c.step action).1 = .polled (.admitted (.unsendable h e))) :
    ∃ token, (c.step action).2.answers.get? h.id = some { call := h.call, token := token } := by
  obtain ⟨id, token, ts, hnew, hstep⟩ := step_of_unsendable hreply
  rw [hstep]
  exact ⟨token, newAnswer_unsendable hnew⟩

/-- Its return can never go out. -/
theorem not_unsent_of_unsendable {c : Connection} (hc : Reachable c) {h : Handle} {token : Token}
    (ha : c.answers.get? h.id = some { call := h.call, token := token }) : ¬ c.Unsent h.call := by
  rintro (hnew | ⟨id, b, hb, hcall, hmsg⟩ | ⟨t, k, e, hq, hcall⟩)
  · exact Nat.not_lt_of_le hnew (hc.call_lt ha)
  · obtain ⟨-, rfl⟩ := hc.record_unique ha hb hcall
    exact hmsg rfl
  · obtain ⟨f, hold⟩ := hq.holds
    obtain ⟨b, hb, hown, -, hready, -⟩ := hc.custody.found_at hold
    obtain ⟨-, rfl⟩ := hc.record_unique ha hb (hown.trans hcall)
    exact absurd hready (by simp)

/-- Nothing is ever sent for a call whose return could not be reserved. -/
theorem sends_of_unsendable {c : Connection} (hc : Reachable c) {h : Handle} {token : Token}
    (ha : c.answers.get? h.id = some { call := h.call, token := token }) (more : List Action) :
    (c.after more).sends h.call = [] := by
  have hnone : c.sends h.call = [] := by
    refine Classical.not_not.1 fun hsent => ?_
    exact absurd ((hc.closed_of_sends hsent).2 h.id _ ha rfl) (by simp)
  rw [sends_after hc (not_unsent_of_unsendable hc ha), hnone]

/-! ## All connections -/

/-- How returns go out. -/
structure SendsOnce (c : Connection) : Prop where
  atMostOnce : ∀ call, (c.sends call).length ≤ 1
  /-- What is sent for a record, at any time, is the return of its call. -/
  addressed : ∀ id a actions m, c.answers.get? id = some a → m ∈ (c.after actions).sends a.call →
    ReturnFor id m.root
  /-- A completion whose return may go out when it is polled first hands it over before it is
      finished. -/
  completed : ∀ t h result guard more,
    c.tasks.get? t = some ⟨.sendReturn h (.unbegun result), guard⟩ → c.Sendable h result →
    c.FinishesIn t (.poll t :: more) → ((c.after (.poll t :: more)).sends h.call).length = 1
  /-- A completion whose return may not go out then never hands one over. -/
  withheld : ∀ t h result guard more,
    c.tasks.get? t = some ⟨.sendReturn h (.unbegun result), guard⟩ → ¬ c.Sendable h result →
    (c.after (.poll t :: more)).sends h.call = []
  /-- Nor does one that is dropped, or cancelled, before it was polled. -/
  dropped : ∀ t h result guard action more,
    c.tasks.get? t = some ⟨.sendReturn h (.unbegun result), guard⟩ →
    action = .dropTask t ∨ action = .poll t ∧ guard.any c.isCanceled = true →
    (c.after (action :: more)).sends h.call = []
  /-- Nothing goes out for a call that the executor gave up on. -/
  givenUp : ∀ h more, c.holds h = true → (c.after (.dropHandle h :: more)).sends h.call = []
  /-- Nothing goes out for a call whose return could not be reserved. -/
  unreserved : ∀ action h e more, (c.step action).1 = .admitted (.unsendable h e) ∨
      (c.step action).1 = .polled (.admitted (.unsendable h e)) →
    (c.after (action :: more)).sends h.call = []

/-- On every connection that can come about, returns go out once at most, and exactly when they may. -/
theorem Reachable.sendsOnce {c : Connection} (hc : Reachable c) : c.SendsOnce where
  atMostOnce call := hc.length_sends_le call
  addressed _ _ actions _ ha hm := returnFor_of_sends_after hc ha actions hm
  completed _ _ _ _ _ hget hsend hfin := sends_of_completed hc hget hsend hfin
  withheld _ _ _ _ more hget hnot := sends_of_withheld hc hget hnot more
  dropped _ _ _ _ _ more hget haction := sends_of_dropped hc hget haction more
  givenUp h more hheld := by
    refine sends_of_missed hc (holds_executor hheld) (closed_of_dropHandle hc hheld) ?_ more
    exact fun t task e hpoll => absurd hpoll (by simp)
  unreserved action h e more hreply := by
    obtain ⟨token, ha⟩ := record_of_unsendable hreply
    exact sends_of_unsendable (.step action hc) ha more

/-- A run in which one return is held up at a gate and another one waits behind it. -/
def waitingRun : List Action :=
  [.newAnswer 1 "first", .newAnswer 2 "second", .gateSend, .sendReturn ⟨1, 0⟩ (.ok ()) none,
    .sendReturn ⟨2, 1⟩ (.ok ()) none, .poll 0]

theorem sendsOnce_after_waiting :
    ((initial {}).after waitingRun).sends 0 ≠ [] ∧
      (((initial {}).after waitingRun).step (.poll 1)).1 = .polled .pending ∧
      (((initial {}).after waitingRun).after [.poll 1]).sends 1 = [] ∧
      (((initial {}).after waitingRun).after [.poll 1, .openGate 0, .poll 0, .poll 1]).sends 1 ≠ [] ∧
      ((initial {}).after waitingRun).SendsOnce :=
  ⟨by decide +kernel, by decide +kernel, by decide +kernel, by decide +kernel,
    ((Reachable.initial {}).after waitingRun).sendsOnce⟩

end Callee.Connection
