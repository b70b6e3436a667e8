import Callee.Proofs.Addressing
import Callee.Proofs.Polling
import Callee.Proofs.Records
import Callee.Proofs.Sending

set_option autoImplicit false

/-! # Returns that may yet go out

The return of a call may go out as long as the call is `Unsent`: it is yet to come, its return is held by
its record, or it waits for its turn in a task. Whatever hands the return over ends that, and nothing
brings it back (`unsent_step`). So a return goes out at most once (`Reachable.length_sends_le`), and not
at all once its chance is over (`sends_after`). -/

namespace Callee.Connection

open Books

/-! ## Returns that may yet go out -/

/-- A return waits in a task until the way out is free. -/
def QueuedAt (c : Connection) (t : TaskId) (h : Handle) (e : Envelope) : Prop :=
  ∃ f guard, c.tasks.get? t = some ⟨.sendReturn h (.sending (.waiting e) f), guard⟩

/-- The return of a call waits until the way out is free. -/
def Queued (c : Connection) (call : CallId) : Prop := ∃ t h e, c.QueuedAt t h e ∧ h.call = call

/-- The record of a call still has its return. -/
def HasReturn (c : Connection) (call : CallId) : Prop :=
  ∃ id a, c.answers.get? id = some a ∧ a.call = call ∧ a.message ≠ none

/-- The return of a call may yet go out. -/
def Unsent (c : Connection) (call : CallId) : Prop :=
  c.nextCall ≤ call ∨ c.HasReturn call ∨ c.Queued call

theorem QueuedAt.holds {c : Connection} {t : TaskId} {h : Handle} {e : Envelope}
    (hq : c.QueuedAt t h e) : ∃ f, c.books.Holds (.task t) h (.sending f) := by
  obtain ⟨f, guard, hget⟩ := hq
  exact ⟨f, taskOwes_of_get? (b := c.books) hget⟩

theorem Closed.not_hasReturn {c : Connection} (hc : Reachable c) {call : CallId} (h : c.Closed call) :
    ¬ c.HasReturn call := by
  rintro ⟨id, a, ha, hcall, hmsg⟩
  exact hmsg ((hc.reckoning.answers id a ha).message_eq_none (h.2 id a ha hcall))

/-- Handles that owe the return of one call are one handle. -/
theorem Reachable.holds_unique {c : Connection} (hc : Reachable c) {p q : Holder} {h k : Handle}
    {s s' : HandleStage} (hold : c.books.Holds p h s) (hold' : c.books.Holds q k s')
    (hcall : k.call = h.call) : q = p ∧ k = h := by
  obtain ⟨st, found, -⟩ := hc.custody.found hold
  obtain ⟨st', found', -⟩ := hc.custody.found hold'
  have hid : k.id = h.id := hc.custody.call_inj (hcall ▸ found') found
  obtain ⟨kid, kcall⟩ := k
  obtain rfl : kid = h.id := hid
  obtain rfl : kcall = h.call := hcall
  exact ⟨hc.custody.single hold' hold, rfl⟩

/-! ## Waiting for the way out -/

theorem pollSend_of_busy (c : Connection) (t : TaskId) (call : Option CallId) (e : Envelope)
    (hbusy : c.sender ≠ none) : c.pollSend t call (.waiting e) = (.pending (.waiting e), c) := by
  obtain ⟨u, hu⟩ := Option.ne_none_iff_exists'.1 hbusy
  simp only [pollSend, hu]

/-- Only a message that found the way taken still waits afterwards. -/
theorem waiting_of_pollSend {c : Connection} {t : TaskId} {call : Option CallId} {send : SendStage}
    {e : Envelope} (h : (c.pollSend t call send).1 = .pending (.waiting e)) :
    send = .waiting e ∧ c.sender ≠ none := by
  have htransmit : ∀ (d : Connection) (x : Envelope) (gate : Option GateId),
      (d.transmit call x gate).1 ≠ .pending (.waiting e) := by
    intro d x gate
    unfold transmit
    split
    · simp
    · dsimp only
      split <;> simp
  cases send with
  | transmitting x gate => exact absurd h (htransmit c x gate)
  | waiting x =>
      by_cases hfree : c.sender = none
      · simp only [pollSend, hfree] at h
        exact absurd h (htransmit _ x _)
      · rw [c.pollSend_of_busy t call x hfree] at h
        simp only [SendPoll.pending.injEq] at h
        exact ⟨h, hfree⟩

theorem waiting_of_awaitReturn {c : Connection} {t : TaskId} {h : Handle} {send : SendStage}
    {f f' : Bool} {e : Envelope}
    (hleft : (c.awaitReturn t h send f).1 = some (.sending (.waiting e) f')) :
    send = .waiting e ∧ c.sender ≠ none := by
  have hsettle : ∀ d : Connection, (d.settleReturn h).1 ≠ some (.sending (.waiting e) f') := by
    intro d heq
    obtain ⟨w, hstage⟩ := draining_of_awaitDeliveries heq
    exact absurd hstage (by simp)
  unfold awaitReturn at hleft
  split at hleft
  · next send' c₁ heq =>
      simp only [Option.some.injEq, ReturnStage.sending.injEq] at hleft
      obtain ⟨rfl, -⟩ := hleft
      exact waiting_of_pollSend (congrArg Prod.fst heq)
  · exact absurd hleft (hsettle _)
  · exact absurd hleft (hsettle _)

/-- What still waits when its task has run had a return on its way, and found the way taken. -/
theorem waiting_of_run {c : Connection} {t : TaskId} {work : Work} {h : Handle} {e : Envelope}
    {f : Bool} (hleft : (c.run t work).1 = .inr (.sendReturn h (.sending (.waiting e) f))) :
    c.sender ≠ none ∧ c.onItsWay work = some (h.call, .waiting e) ∧
      ∃ stage, work = .sendReturn h stage := by
  obtain ⟨stage, rfl, hpoll⟩ := left_of_run hleft
  cases stage with
  | draining w =>
      obtain ⟨w', hstage⟩ := draining_of_awaitDeliveries hpoll
      exact absurd hstage (by simp)
  | sending send f' =>
      obtain ⟨rfl, hbusy⟩ := waiting_of_awaitReturn hpoll
      exact ⟨hbusy, rfl, _, rfl⟩
  | unbegun result =>
      have hsender := c.sender_begun (.sendReturn h (.unbegun result))
      simp only [begun] at hsender
      simp only [pollReturn] at hpoll
      split at hpoll
      · exact absurd hpoll (by simp)
      · next envelope f₁ c₁ heq =>
          rw [heq] at hsender
          obtain ⟨hsend, hbusy⟩ := waiting_of_awaitReturn hpoll
          obtain rfl := SendStage.waiting.inj hsend
          refine ⟨hsender ▸ hbusy, ?_, _, rfl⟩
          simp [onItsWay, heq]
      · next f₁ c₁ heq =>
          obtain ⟨w, hstage⟩ := draining_of_awaitDeliveries hpoll
          exact absurd hstage (by simp)

theorem awaitReturn_of_busy (c : Connection) (t : TaskId) (h : Handle) (e : Envelope) (f : Bool)
    (hbusy : c.sender ≠ none) :
    c.awaitReturn t h (.waiting e) f = (some (.sending (.waiting e) f), c) := by
  simp only [awaitReturn, c.pollSend_of_busy t _ e hbusy]

/-- What finds the way taken goes on waiting. -/
theorem run_of_busy {c : Connection} (t : TaskId) {h : Handle} {stage : ReturnStage} {call : CallId}
    {e : Envelope} (hway : c.onItsWay (.sendReturn h stage) = some (call, .waiting e))
    (hbusy : c.sender ≠ none) : ∃ f, c.run t (.sendReturn h stage) =
      (.inr (.sendReturn h (.sending (.waiting e) f)), c.begun (.sendReturn h stage)) := by
  cases stage with
  | draining w => exact absurd hway (by simp [onItsWay])
  | sending send f =>
      obtain ⟨-, rfl⟩ := Prod.mk.inj (Option.some.inj hway)
      refine ⟨f, ?_⟩
      simp only [run, pollReturn, c.awaitReturn_of_busy t h e f hbusy, begun]
  | unbegun result =>
      have hsender := c.sender_begun (.sendReturn h (.unbegun result))
      simp only [begun] at hsender
      obtain ⟨d, hd, heq⟩ := Option.map_eq_some_iff.1 hway
      obtain rfl := SendStage.waiting.inj (Prod.mk.inj heq).2
      obtain ⟨⟨envelope, f⟩, hbegun, henv⟩ := Option.bind_eq_some_iff.1 hd
      obtain rfl : envelope = some d := henv
      have hbegin : c.beginReturn h.id result =
          (some ⟨some d, f⟩, (c.beginReturn h.id result).2) := Prod.ext hbegun rfl
      refine ⟨f, ?_⟩
      simp only [run, pollReturn, begun]
      rw [hbegin]
      simp only [awaitReturn_of_busy _ t h d f (hsender ▸ hbusy)]

/-! ## Over a step -/

/-- A return that is on its way is with the sender already, or the completion of its call begins. -/
theorem onItsWay_cases {c : Connection} {work : Work} {call : CallId} {send : SendStage}
    (hway : c.onItsWay work = some (call, send)) :
    (∃ h f, work = .sendReturn h (.sending send f) ∧ h.call = call) ∨
      ∃ h result e, work = .sendReturn h (.unbegun result) ∧ h.call = call ∧ send = .waiting e ∧
        (c.beginReturn h.id result).1.bind BegunReturn.envelope = some e := by
  unfold onItsWay at hway
  split at hway
  · next h result =>
      obtain ⟨e, hbegun, heq⟩ := Option.map_eq_some_iff.1 hway
      obtain ⟨hcall, rfl⟩ := Prod.mk.inj heq
      exact Or.inr ⟨h, result, e, rfl, hcall, rfl, hbegun⟩
  · next h send' f =>
      obtain ⟨hcall, rfl⟩ := Prod.mk.inj (Option.some.inj hway)
      exact Or.inl ⟨h, f, rfl, hcall⟩
  · exact absurd hway (by simp)

/-- What has a return on its way owes it. -/
theorem owes_of_onItsWay {c : Connection} {work : Work} {call : CallId} {send : SendStage}
    (hway : c.onItsWay work = some (call, send)) :
    ∃ h s, work.owes = some (h, s) ∧ h.call = call := by
  rcases onItsWay_cases hway with ⟨h, f, rfl, hcall⟩ | ⟨h, result, e, rfl, hcall, -⟩
  · exact ⟨h, .sending f, rfl, hcall⟩
  · exact ⟨h, .building, rfl, hcall⟩

/-- A completion that begins finds the record of its call, and lets its return go on exactly if that may
    go out. -/
theorem onItsWay_of_unbegun {c : Connection} (hc : Reachable c) {t : TaskId} {h : Handle}
    {result : Except Error Unit} {guard : Option Token}
    (hget : c.tasks.get? t = some ⟨.sendReturn h (.unbegun result), guard⟩) :
    (∃ e, c.onItsWay (.sendReturn h (.unbegun result)) = some (h.call, .waiting e) ∧
        ReturnFor h.id e.root ∧ c.Sendable h result) ∨
      c.onItsWay (.sendReturn h (.unbegun result)) = none ∧ ¬ c.Sendable h result := by
  have hold : c.books.Holds (.task t) h .building := taskOwes_of_get? (b := c.books) hget
  obtain ⟨a, ha, -, -⟩ := hc.custody.found_at hold
  obtain ⟨begun, ms, x, hs, p, a', hbegin, -⟩ := c.beginReturn_shape result ha
  simp only [onItsWay, hbegin, Option.bind_some]
  rcases c.envelope_beginReturn ha (fun e he => hc.addressed h.id a e ha he) result hbegin with
    ⟨e, henv, haddress, hsend⟩ | ⟨henv, hnot⟩
  · rw [henv]
    exact Or.inl ⟨e, rfl, haddress, hsend⟩
  · rw [henv]
    exact Or.inr ⟨rfl, hnot⟩

/-- What has a return waiting on its way either held it in its record until now or had it waiting
    before. -/
theorem unsent_of_onItsWay {c : Connection} (hc : Reachable c) {t : TaskId} {task : Task}
    {call : CallId} {e : Envelope} (hget : c.tasks.get? t = some task)
    (hway : c.onItsWay task.work = some (call, .waiting e)) : c.Unsent call := by
  obtain ⟨work, guard⟩ := task
  rcases onItsWay_cases hway with ⟨h, f, rfl, hcall⟩ | ⟨h, result, d, rfl, rfl, -, -⟩
  · exact Or.inr (Or.inr ⟨t, h, e, ⟨f, guard, hget⟩, hcall⟩)
  · rcases onItsWay_of_unbegun hc hget with ⟨-, -, -, hsend⟩ | ⟨hnone, -⟩
    · obtain ⟨a, d, ha, hmsg, -⟩ := hsend.room
      have hold : c.books.Holds (.task t) h .building := taskOwes_of_get? (b := c.books) hget
      obtain ⟨b, hb, hcall, -⟩ := hc.custody.found_at hold
      obtain rfl := Option.some.inj (ha.symm.trans hb)
      exact Or.inr (Or.inl ⟨h.id, a, ha, hcall, by simp [hmsg]⟩)
    · exact absurd (hnone.symm.trans hway) (by simp)

/-- What an action hands over is the return of a call whose answer it closes. -/
theorem closed_of_handsOver {c : Connection} (hc : Reachable c) {action : Action} {call : CallId}
    {m : Message} (hin : (call, m) ∈ c.handsOver action) : (c.step action).2.Closed call := by
  obtain ⟨t, task, e, rfl, hget, hlive, hway, -, -⟩ := (c.mem_handsOver_iff _ _ _).1 hin
  obtain ⟨h, s, howes, rfl⟩ := owes_of_onItsWay hway
  exact closed_of_poll hc hget hlive howes

/-- A return that may still go out after a step might have gone out before it, and was not handed over
    by it. -/
theorem unsent_step {c : Connection} (hc : Reachable c) {action : Action} {call : CallId}
    (hunsent : (c.step action).2.Unsent call) :
    c.Unsent call ∧ ∀ m, (call, m) ∉ c.handsOver action := by
  rcases hunsent with hnew | hreturn | ⟨t, h, e, ⟨f, guard, hget⟩, rfl⟩
  · refine ⟨Or.inl (Nat.le_trans (c.ages_step action).1 hnew), fun m hin => ?_⟩
    exact Nat.not_lt_of_le hnew (closed_of_handsOver hc hin).1
  · refine ⟨?_, fun m hin => ?_⟩
    · obtain ⟨id, b, hb, rfl, hmsg⟩ := hreturn
      rcases (c.ages_step action).2 id b hb with ⟨a, ha, hages⟩ | hlate
      · exact Or.inr (Or.inl ⟨id, a, ha, hages.call.symm, mt hages.message hmsg⟩)
      · exact Or.inl hlate
    · exact (closed_of_handsOver hc hin).not_hasReturn (.step action hc) hreturn
  · cases c.taskStep action hget with
    | spawned number fresh => exact fresh.elim
    | @ran before work isPoll found live left task =>
        obtain rfl := (Task.mk.inj task).1
        obtain ⟨hbusy, hway, -⟩ := waiting_of_run left
        refine ⟨unsent_of_onItsWay hc found hway, fun m hin => ?_⟩
        obtain ⟨-, -, -, -, -, -, -, hfree, -⟩ := (c.mem_handsOver_iff _ _ _).1 hin
        exact hbusy hfree
    | kept before idle =>
        have hq : c.QueuedAt t h e := ⟨f, guard, before⟩
        refine ⟨Or.inr (Or.inr ⟨t, h, e, hq, rfl⟩), fun m hin => ?_⟩
        -- whatever is handed over for the call comes from the task that has its handle
        obtain ⟨u, task, d, rfl, hget', -, hway, -, -⟩ := (c.mem_handsOver_iff _ _ _).1 hin
        obtain ⟨k, s, howes, hcall⟩ := owes_of_onItsWay hway
        have hold' : c.books.Holds (.task u) k s := (taskOwes_of_get? (b := c.books) hget').trans howes
        obtain ⟨f', hold⟩ := hq.holds
        obtain ⟨hplace, -⟩ := hc.holds_unique hold hold' hcall
        exact idle (congrArg Action.poll (Holder.task.inj hplace))

theorem unsent_of_handsOver {c : Connection} (hc : Reachable c) {action : Action} {call : CallId}
    {m : Message} (hin : (call, m) ∈ c.handsOver action) : c.Unsent call := by
  obtain ⟨t, task, e, rfl, hget, -, hway, -, -⟩ := (c.mem_handsOver_iff _ _ _).1 hin
  exact unsent_of_onItsWay hc hget hway

/-! ## Over a run -/

theorem sends_step (c : Connection) (action : Action) (call : CallId) :
    (c.step action).2.sends call =
      ((c.handsOver action).filter fun p => p.1 = call).map Prod.snd ++ c.sends call := by
  unfold sends
  rw [handedReturns_step, List.filter_append, List.map_append]

/-- A step that hands nothing over for a call leaves what was sent for it. -/
theorem sends_step_of_not_mem {c : Connection} {action : Action} {call : CallId}
    (hnot : ∀ m, (call, m) ∉ c.handsOver action) :
    (c.step action).2.sends call = c.sends call := by
  have hnone : (c.handsOver action).filter (fun p => p.1 = call) = [] := by
    refine List.filter_eq_nil_iff.2 fun p hp hcall => ?_
    obtain ⟨k, m⟩ := p
    obtain rfl : k = call := of_decide_eq_true hcall
    exact hnot m hp
  rw [sends_step, hnone]
  rfl

theorem mem_sends_step_iff (c : Connection) (action : Action) (call : CallId) (m : Message) :
    m ∈ (c.step action).2.sends call ↔ (call, m) ∈ c.handsOver action ∨ m ∈ c.sends call := by
  rw [sends_step, List.mem_append, List.mem_map]
  refine or_congr_left ⟨?_, fun hin => ⟨(call, m), by simpa using hin, rfl⟩⟩
  rintro ⟨⟨k, m'⟩, hin, rfl⟩
  obtain ⟨hmem, hcall⟩ := List.mem_filter.1 hin
  obtain rfl : k = call := of_decide_eq_true hcall
  exact hmem

/-- Nothing was sent for a call whose return may yet go out. -/
theorem Reachable.sends_of_unsent {c : Connection} (hc : Reachable c) {call : CallId}
    (hunsent : c.Unsent call) : c.sends call = [] := by
  induction hc with
  | initial options => rfl
  | step action hprev ih =>
      obtain ⟨hbefore, hnot⟩ := unsent_step hprev hunsent
      rw [sends_step_of_not_mem hnot, ih hbefore]

/-- A return goes out once at most. -/
theorem Reachable.length_sends_le {c : Connection} (hc : Reachable c) (call : CallId) :
    (c.sends call).length ≤ 1 := by
  induction hc with
  | initial options => exact Nat.zero_le 1
  | @step c action hprev ih =>
      by_cases hin : ∃ m, (call, m) ∈ c.handsOver action
      · obtain ⟨m, hin⟩ := hin
        have hone := List.length_filter_le (fun p => decide (p.1 = call)) (c.handsOver action)
        rw [sends_step, hprev.sends_of_unsent (unsent_of_handsOver hprev hin), List.append_nil,
          List.length_map]
        exact Nat.le_trans hone (c.length_handsOver_le action)
      · rw [sends_step_of_not_mem (not_exists.1 hin)]
        exact ih

/-- What was sent for a call closed its answer. -/
theorem Reachable.closed_of_sends {c : Connection} (hc : Reachable c) {call : CallId}
    (hsent : c.sends call ≠ []) : c.Closed call := by
  induction hc with
  | initial options => exact absurd rfl hsent
  | @step c action hprev ih =>
      by_cases hin : ∃ m, (call, m) ∈ c.handsOver action
      · obtain ⟨m, hin⟩ := hin
        exact closed_of_handsOver hprev hin
      · rw [sends_step_of_not_mem (not_exists.1 hin)] at hsent
        exact (ih hsent).after hprev [action]

/-- Once its chance is over, nothing more is sent for a call. -/
theorem sends_after {c : Connection} (hc : Reachable c) {call : CallId} (hover : ¬ c.Unsent call)
    (actions : List Action) : (c.after actions).sends call = c.sends call := by
  induction actions generalizing c with
  | nil => rfl
  | cons action rest ih =>
      have hnot : ∀ m, (call, m) ∉ c.handsOver action := fun m hin =>
        hover (unsent_of_handsOver hc hin)
      rw [after_cons, ih (.step action hc) fun h => hover (unsent_step hc h).1,
        sends_step_of_not_mem hnot]

end Callee.Connection
