import Callee.Proofs.Custody
import Callee.Proofs.Running

set_option autoImplicit false

/-! # What completing a call does to lifecycles

A return begins, goes out and is marked sent. The lemmas say of each part what it makes of the status of
the answer, given that the answer is there, and that it leaves handles and tasks to the step around it.
`ReturnPolled` sums up what one look at a completion can come to. -/

namespace Callee.Connection

open Books

theorem status_putAnswer (c : Connection) (id : AnswerId) (a : Answer) (j : AnswerId) :
    (c.putAnswer id a).books.status j =
      if j = id then staying a.call a.state else c.books.status j := by
  unfold putAnswer staying
  by_cases hdone : a.state.isDone = true
  · simp only [hdone, if_true, status, books, Table.get?_erase]
    split <;> rfl
  · simp only [hdone, Bool.false_eq_true, if_false, status, books, Table.get?_insert]
    split <;> rfl

/-! ## Completing calls -/

theorem beginReturn_life (c : Connection) {id : AnswerId} (result : Except Error Unit)
    {call : CallId} {st : AnswerState} (found : c.books.status id = some (call, st)) :
    ∃ begun c', c.beginReturn id result = (some begun, c') ∧
      begun.finishReceived = st.finishReceived ∧ c.books.SameWork c'.books ∧
      ∀ j, c'.books.status j =
        if j = id then some (call, st.markResultsReady) else c.books.status j := by
  obtain ⟨a, ha, rfl, rfl⟩ := (c.books.status_eq_some_iff id call st).1 found
  obtain ⟨begun, ms, x, hs, p, a', heq, hfin, hcall, hstate⟩ := c.beginReturn_shape result ha
  refine ⟨begun, _, heq, hfin, ⟨rfl, rfl, rfl, rfl⟩, fun j => ?_⟩
  rw [status_of_insert (b := c.books) (a := a') rfl, hcall, hstate]

theorem endReturn_life (c : Connection) {id : AnswerId} {call : CallId} {st : AnswerState}
    (found : c.books.status id = some (call, st)) :
    c.books.SameWork (c.endReturn id).books ∧
      ∀ j, (c.endReturn id).books.status j =
        if j = id then staying call st.markReturnSent else c.books.status j := by
  obtain ⟨a, ha, rfl, rfl⟩ := (c.books.status_eq_some_iff id call st).1 found
  obtain ⟨hs, heq⟩ := c.endReturn_shape ha
  rw [heq]
  exact ⟨⟨rfl, rfl, rfl, rfl⟩, status_putAnswer _ id a.markReturnSent⟩

theorem cancelReturn_life (c : Connection) {id : AnswerId} {call : CallId} {st : AnswerState}
    (found : c.books.status id = some (call, st)) :
    c.books.SameWork (c.cancelReturn id).books ∧
      ∀ j, (c.cancelReturn id).books.status j =
        if j = id then staying call st.markResultsReady.markReturnSent else c.books.status j := by
  obtain ⟨a, ha, rfl, rfl⟩ := (c.books.status_eq_some_iff id call st).1 found
  obtain ⟨hs, heq⟩ := c.cancelReturn_shape ha
  rw [heq]
  exact ⟨⟨rfl, rfl, rfl, rfl⟩,
    status_putAnswer _ id (a.complete (some .callCanceled)).markReturnSent⟩

/-- What polling the completion of a call does to lifecycles, when the call still owes its return:
    either it goes on owing it, or the return is marked sent. -/
inductive ReturnPolled (b : Books) (h : Handle) (st : AnswerState) (left : Option ReturnStage)
    (b' : Books) : Prop
  | owing {s' : HandleStage} {st' : AnswerState} (owes : left.bind ReturnStage.owes = some s')
      (fits : s'.Fits st') (finish : st'.finishReceived = st.finishReceived)
      (ready : st.resultsReady = true → st'.resultsReady = true)
      (status : ∀ j, b'.status j = if j = h.id then some (h.call, st') else b.status j)
  | settled (owes : left.bind ReturnStage.owes = none)
      (status : ∀ j, b'.status j =
        if j = h.id then staying h.call st.markResultsReady.markReturnSent else b.status j)

theorem settleReturn_life (c : Connection) {h : Handle} {st : AnswerState}
    (found : c.books.status h.id = some (h.call, st)) :
    c.books.SameWork (c.settleReturn h).2.books ∧
      (c.settleReturn h).1.bind ReturnStage.owes = none ∧
      ∀ j, (c.settleReturn h).2.books.status j =
        if j = h.id then staying h.call st.markReturnSent else c.books.status j := by
  obtain ⟨hwork, hstatus⟩ := c.endReturn_life found
  unfold settleReturn
  rw [books_awaitDeliveries]
  refine ⟨hwork, ?_, hstatus⟩
  unfold awaitDeliveries
  simp only [Option.bind_map]
  cases ((c.endReturn h.id).deliveriesOf h.call).poll .unasked |>.1 <;> rfl

theorem awaitReturn_life (c : Connection) (t : TaskId) {h : Handle} (send : SendStage) {f : Bool}
    {st : AnswerState} (found : c.books.status h.id = some (h.call, st))
    (fit : (HandleStage.sending f).Fits st) :
    c.books.SameWork (c.awaitReturn t h send f).2.books ∧
      ReturnPolled c.books h st (c.awaitReturn t h send f).1 (c.awaitReturn t h send f).2.books := by
  have hself : st.markResultsReady = st := by
    cases st
    simp_all [HandleStage.Fits, AnswerState.markResultsReady]
  have hsend := c.books_pollSend t (some h.call) send
  unfold awaitReturn
  split
  · next send' c₁ heq =>
      -- still on its way out
      rw [heq] at hsend
      refine ⟨.of_eq hsend, .owing rfl fit rfl id fun j => ?_⟩
      dsimp only at hsend ⊢
      rw [hsend]
      by_cases hj : j = h.id
      · rw [if_pos hj, hj, found]
      · rw [if_neg hj]
  · next e c₁ heq =>
      -- a return that could not be sent is marked sent all the same
      rw [heq] at hsend
      have found₁ : (c₁.report (.sendingReturn e)).books.status h.id = some (h.call, st) := by
        rw [books_report]
        exact (congrArg (fun b : Books => b.status h.id) hsend).trans found
      obtain ⟨hwork, howes, hstatus⟩ := settleReturn_life _ found₁
      refine ⟨(SameWork.of_eq hsend).trans hwork, .settled howes fun j => ?_⟩
      rw [hstatus, hself, books_report]
      exact congrArg (fun b : Books => if j = h.id then _ else b.status j) hsend
  · next c₁ heq =>
      rw [heq] at hsend
      have found₁ : c₁.books.status h.id = some (h.call, st) :=
        (congrArg (fun b : Books => b.status h.id) hsend).trans found
      obtain ⟨hwork, howes, hstatus⟩ := settleReturn_life _ found₁
      refine ⟨(SameWork.of_eq hsend).trans hwork, .settled howes fun j => ?_⟩
      rw [hstatus, hself]
      exact congrArg (fun b : Books => if j = h.id then _ else b.status j) hsend

theorem ReturnPolled.of_begun {b b₁ b' : Books} {h : Handle} {st st₁ : AnswerState}
    {left : Option ReturnStage} (hp : ReturnPolled b₁ h st₁ left b')
    (hst : st₁ = st.markResultsReady)
    (status : ∀ j, b₁.status j = if j = h.id then some (h.call, st₁) else b.status j) :
    ReturnPolled b h st left b' := by
  subst hst
  cases hp with
  | @owing s' st' owes fits finish ready status' =>
      refine .owing owes fits finish (fun _ => ready rfl) fun j => ?_
      rw [status', status]
      by_cases hj : j = h.id
      · rw [if_pos hj, if_pos hj]
      · rw [if_neg hj, if_neg hj, if_neg hj]
  | settled owes status' =>
      refine .settled owes fun j => ?_
      rw [status', status]
      by_cases hj : j = h.id
      · rw [if_pos hj, if_pos hj]
        rfl
      · rw [if_neg hj, if_neg hj, if_neg hj]

theorem pollReturn_life (c : Connection) (t : TaskId) {h : Handle} {stage : ReturnStage}
    {s : HandleStage} {st : AnswerState} (howes : stage.owes = some s)
    (found : c.books.status h.id = some (h.call, st)) (fit : s.Fits st) :
    c.books.SameWork (c.pollReturn t h stage).2.books ∧
      ReturnPolled c.books h st (c.pollReturn t h stage).1 (c.pollReturn t h stage).2.books := by
  cases stage with
  | draining w => exact absurd howes (by simp [ReturnStage.owes])
  | sending send f =>
      obtain rfl : s = .sending f := (Option.some.inj howes).symm
      exact c.awaitReturn_life t send found fit
  | unbegun result =>
      obtain rfl : s = .building := (Option.some.inj howes).symm
      obtain ⟨begun, c₁, heq, hfin, hwork, hstatus⟩ := c.beginReturn_life result found
      have found₁ : c₁.books.status h.id = some (h.call, st.markResultsReady) := by
        rw [hstatus, if_pos rfl]
      simp only [pollReturn, heq]
      obtain ⟨envelope, f⟩ := begun
      cases envelope with
      | some envelope =>
          have fit₁ : (HandleStage.sending f).Fits st.markResultsReady :=
            ⟨fit.1, rfl, fun hf => by rw [← hf]; exact hfin.symm⟩
          obtain ⟨hwork', hp⟩ := c₁.awaitReturn_life t (.waiting envelope) found₁ fit₁
          exact ⟨hwork.trans hwork', hp.of_begun rfl hstatus⟩
      | none =>
          obtain ⟨hwork', howes', hstatus'⟩ := c₁.settleReturn_life found₁
          have hp : ReturnPolled c₁.books h st.markResultsReady (c₁.settleReturn h).1
              (c₁.settleReturn h).2.books := .settled howes' hstatus'
          exact ⟨hwork.trans hwork', hp.of_begun rfl hstatus⟩

end Callee.Connection
