import Callee.Proofs.Handles

set_option autoImplicit false

/-! # When an answer leaves the table

Two signals complete an answer: its return is marked sent, and the peer's finish is received. They come
in either order, and whichever comes second takes the record out of the table. `LifeStep.record` says
what one step makes of one record; `Reachable.completesInOrder` says the same of the connections that
can come about, and what follows for whole runs: a record leaves once, keeps its id, and no flag of it
is ever taken back. -/

namespace Callee

open Books

/-! ## One record -/

/-- No flag of a state is taken back in a later one. -/
structure AnswerState.KeptBy (s s' : AnswerState) : Prop where
  returnSent : s.returnSent = true → s'.returnSent = true
  finishReceived : s.finishReceived = true → s'.finishReceived = true
  resultsReady : s.resultsReady = true → s'.resultsReady = true

theorem AnswerState.KeptBy.refl (s : AnswerState) : s.KeptBy s := ⟨id, id, id⟩

theorem AnswerState.KeptBy.trans {s s' s'' : AnswerState} (h : s.KeptBy s') (h' : s'.KeptBy s'') :
    s.KeptBy s'' :=
  ⟨h'.returnSent ∘ h.returnSent, h'.finishReceived ∘ h.finishReceived,
    h'.resultsReady ∘ h.resultsReady⟩

/-- A handle still owes its return. -/
def Books.Live (b : Books) (h : Handle) : Prop := ∃ p s, b.Holds p h s

namespace LifeStep

variable {b b' : Books} {action : Action}

theorem live_of_finish (hstep : LifeStep b action b') {id : AnswerId} (hf : action.IsFinish id)
    (h : Handle) : b'.Live h ↔ b.Live h := by
  unfold Live
  cases hstep with
  | same idle status holds calls => simp only [holds]
  | admitted idle fresh status holds calls => exact absurd hf (idle id)
  | passed idle hold found fits finish ready status holds calls => exact absurd hf (idle id)
  | settled idle ends hold found status holds calls => exact absurd hf (idle id)
  | finished isFinish found status holds calls => simp only [holds]

/-- A record turns from one state to another: the flags are set that the step is about, and the record
    stays unless both signals are there. -/
structure Turns (b : Books) (action : Action) (b' : Books) (id : AnswerId) (call : CallId)
    (st st' : AnswerState) : Prop where
  status : b'.status id = staying call st'
  returnSent : st'.returnSent = true ↔
    st.returnSent = true ∨ b.Live ⟨id, call⟩ ∧ ¬ b'.Live ⟨id, call⟩
  finishReceived : st'.finishReceived = true ↔ st.finishReceived = true ∨ action.IsFinish id
  resultsReady : st.resultsReady = true → st'.resultsReady = true

/-- A record that a step is not about. -/
theorem turns_of_other (hb : b.Custody) {id : AnswerId} {call : CallId} {st : AnswerState}
    (found : b.status id = some (call, st)) (hstatus : b'.status id = b.status id)
    (hlive : b.Live ⟨id, call⟩ → b'.Live ⟨id, call⟩) (hidle : ¬ action.IsFinish id) :
    Turns b action b' id call st st where
  status := by
    rw [hstatus, found]
    exact (staying_eq_some_iff.2 ⟨rfl, rfl, hb.not_done found⟩).symm
  returnSent := ⟨Or.inl, fun h => h.elim (fun h => h) fun h => absurd (hlive h.1) h.2⟩
  finishReceived := ⟨Or.inl, fun h => h.elim (fun h => h) fun h => absurd h hidle⟩
  resultsReady h := h

/-- A handle that is passed on takes its record along. -/
theorem turns_of_passed {p q : Holder} {h : Handle} {s s' : HandleStage} {st st' : AnswerState}
    (hb : b.Custody) (idle : ∀ j, ¬ action.IsFinish j) (hold : b.Holds p h s)
    (found : b.status h.id = some (h.call, st)) (fits : s'.Fits st')
    (finish : st'.finishReceived = st.finishReceived)
    (ready : st.resultsReady = true → st'.resultsReady = true)
    (status : b'.status h.id = some (h.call, st')) (hold' : b'.Holds q h s') :
    Turns b action b' h.id h.call st st' where
  status := by
    rw [status]
    exact (staying_eq_some_iff.2 ⟨rfl, rfl, fits.not_done⟩).symm
  returnSent := by
    obtain ⟨st₁, found₁, fit⟩ := hb.found hold
    rw [found] at found₁
    obtain ⟨-, rfl⟩ := Prod.mk.inj (Option.some.inj found₁)
    have hlive : b'.Live h := ⟨q, s', hold'⟩
    simp [fits.unsent, fit.unsent, hlive]
  finishReceived := by simp [finish, idle]
  resultsReady := ready

/-- What a step makes of a record. -/
theorem record (hstep : LifeStep b action b') (hb : b.Custody) {id : AnswerId} {call : CallId}
    {st : AnswerState} (found : b.status id = some (call, st)) :
    ∃ st', Turns b action b' id call st st' := by
  cases hstep with
  | same idle status holds calls =>
      have hlive : b.Live ⟨id, call⟩ → b'.Live ⟨id, call⟩ :=
        fun ⟨p, s, h⟩ => ⟨p, s, (holds p _ s).2 h⟩
      refine ⟨st, turns_of_other hb found (status id) hlive fun hf => ?_⟩
      rw [idle id hf] at found
      exact absurd found (by simp)
  | @admitted fresh idle free status holds calls =>
      have hne : id ≠ fresh := by
        intro he
        rw [he, free] at found
        exact absurd found (by simp)
      have hlive : b.Live ⟨id, call⟩ → b'.Live ⟨id, call⟩ :=
        fun ⟨p, s, h⟩ => ⟨p, s, (holds p _ s).2 (Or.inl h)⟩
      exact ⟨st, turns_of_other hb found (by rw [status, if_neg hne]) hlive (idle id)⟩
  | @passed p q h s s' st₁ st' idle hold found' fits finish ready status holds calls =>
      by_cases hid : id = h.id
      · subst hid
        rw [found] at found'
        obtain ⟨rfl, rfl⟩ := Prod.mk.inj (Option.some.inj found')
        have hold' : b'.Holds q h s' := (holds q h s').2 (Or.inr ⟨rfl, rfl, rfl⟩)
        exact ⟨st', turns_of_passed hb idle hold found fits finish ready
          (by rw [status, if_pos rfl]) hold'⟩
      · have hlive : b.Live ⟨id, call⟩ → b'.Live ⟨id, call⟩ := fun ⟨r, u, hr⟩ =>
          ⟨r, u, (holds r _ u).2 (Or.inl ⟨hr, fun he => hid (congrArg Handle.id he)⟩)⟩
        exact ⟨st, turns_of_other hb found (by rw [status, if_neg hid]) hlive (idle id)⟩
  | @settled p h s st₁ idle ends hold found' status holds calls =>
      by_cases hid : id = h.id
      · subst hid
        rw [found] at found'
        obtain ⟨rfl, rfl⟩ := Prod.mk.inj (Option.some.inj found')
        have hgone : ¬ b'.Live ⟨h.id, h.call⟩ := fun ⟨r, u, hr⟩ => ((holds r _ u).1 hr).2 rfl
        have hlive : b.Live ⟨h.id, h.call⟩ := ⟨p, s, hold⟩
        refine ⟨st.markResultsReady.markReturnSent, ?_, ?_, ?_, ?_⟩
        · rw [status, if_pos rfl]
        · simp [hgone, hlive]
        · simp [idle]
        · simp
      · have hlive : b.Live ⟨id, call⟩ → b'.Live ⟨id, call⟩ := fun ⟨r, u, hr⟩ =>
          ⟨r, u, (holds r _ u).2 ⟨hr, fun he => hid (congrArg Handle.id he)⟩⟩
        exact ⟨st, turns_of_other hb found (by rw [status, if_neg hid]) hlive (idle id)⟩
  | @finished fid fcall st₁ isFinish found' status holds calls =>
      have hlive : b.Live ⟨id, call⟩ → b'.Live ⟨id, call⟩ :=
        fun ⟨p, s, h⟩ => ⟨p, s, (holds p _ s).2 h⟩
      by_cases hid : id = fid
      · subst hid
        rw [found] at found'
        obtain ⟨rfl, rfl⟩ := Prod.mk.inj (Option.some.inj found')
        refine ⟨st.markFinishReceived, ?_, ?_, ?_, ?_⟩
        · rw [status, if_pos rfl]
        · refine ⟨fun h => Or.inl (by simpa using h), fun h => ?_⟩
          rcases h with hsent | ⟨hlive₀, hgone⟩
          · simpa using hsent
          · exact absurd (hlive hlive₀) hgone
        · simp [isFinish]
        · simp
      · refine ⟨st, turns_of_other hb found (by rw [status, if_neg hid]) hlive ?_⟩
        obtain ⟨r, rfl⟩ := isFinish
        rintro ⟨r', he⟩
        exact hid (Action.finish.inj he).1.symm

/-- A record that stands in the table after a step was there before, or belongs to a new call and is as
    new. -/
theorem before (hstep : LifeStep b action b') (hb : b.Custody) {id : AnswerId} {call : CallId}
    {st' : AnswerState} (found : b'.status id = some (call, st')) :
    call = b.nextCall ∧ st' = {} ∨ ∃ st, b.status id = some (call, st) ∧ st.KeptBy st' := by
  cases hst : b.status id with
  | some v =>
      obtain ⟨call₁, st⟩ := v
      obtain ⟨st₁, hstatus, hsent, hfinish, hready⟩ := hstep.record hb hst
      rw [found] at hstatus
      obtain ⟨rfl, rfl, -⟩ := staying_eq_some_iff.1 hstatus.symm
      exact Or.inr ⟨st, rfl, fun h => hsent.2 (Or.inl h), fun h => hfinish.2 (Or.inl h), hready⟩
  | none =>
      -- a step that is about a record does not bring one to an id without any
      have hnone : ∀ {i call₁ st₁ v}, b.status i = some (call₁, st₁) →
          ¬ ∀ j, b'.status j = if j = i then v else b.status j := by
        intro i call₁ st₁ v hi hstatus
        have hne : id ≠ i := by
          rintro rfl
          rw [hst] at hi
          exact absurd hi (by simp)
        rw [hstatus, if_neg hne, hst] at found
        exact absurd found (by simp)
      cases hstep with
      | same idle status holds calls =>
          rw [status, hst] at found
          exact absurd found (by simp)
      | @admitted fresh idle free status holds calls =>
          rw [status] at found
          split at found
          · obtain ⟨rfl, rfl⟩ := Prod.mk.inj (Option.some.inj found)
            exact Or.inl ⟨rfl, rfl⟩
          · exact absurd (hst.symm.trans found) (by simp)
      | passed idle hold found' fits finish ready status holds calls =>
          exact absurd status (hnone found')
      | settled idle ends hold found' status holds calls => exact absurd status (hnone found')
      | finished isFinish found' status holds calls => exact absurd status (hnone found')

theorem nextCall_le (hstep : LifeStep b action b') : b.nextCall ≤ b'.nextCall := by
  cases hstep with
  | same idle status holds calls => exact Nat.le_of_eq calls.symm
  | admitted idle fresh status holds calls => rw [calls]; exact Nat.le_succ _
  | passed idle hold found fits finish ready status holds calls => exact Nat.le_of_eq calls.symm
  | settled idle ends hold found status holds calls => exact Nat.le_of_eq calls.symm
  | finished isFinish found status holds calls => exact Nat.le_of_eq calls.symm

end LifeStep

namespace Connection

/-! ## Records over a run -/

/-- What stands in the table after a run, of a call that was known before it, was there before. -/
theorem before_of_after {c : Connection} (hc : Reachable c) (actions : List Action) {id : AnswerId}
    {call : CallId} {st' : AnswerState} (hlt : call < c.nextCall)
    (found : (c.after actions).books.status id = some (call, st')) :
    ∃ st, c.books.status id = some (call, st) ∧ st.KeptBy st' := by
  induction actions generalizing c with
  | nil => exact ⟨st', found, .refl st'⟩
  | cons action rest ih =>
      have hstep := hc.lifeStep action
      obtain ⟨st₁, hst₁, hkept₁⟩ := ih (.step action hc) (Nat.lt_of_lt_of_le hlt hstep.nextCall_le) found
      rcases hstep.before hc.custody hst₁ with ⟨rfl, -⟩ | ⟨st, hst, hkept⟩
      · exact absurd hlt (Nat.lt_irrefl _)
      · exact ⟨st, hst, hkept.trans hkept₁⟩

theorem nextCall_le_after {c : Connection} (hc : Reachable c) (actions : List Action) :
    c.nextCall ≤ (c.after actions).nextCall := by
  induction actions generalizing c with
  | nil => exact Nat.le_refl _
  | cons action rest ih => exact Nat.le_trans (hc.lifeStep action).nextCall_le (ih (.step action hc))

/-- No answer in the table belongs to a call. -/
def Forgets (c : Connection) (call : CallId) : Prop :=
  ∀ id a, c.answers.get? id = some a → a.call ≠ call

/-! ## Signals -/

/-- An action ends the wait for the return of a handle: it owed its return before, and it does not
    afterwards. -/
def Settles (c : Connection) (action : Action) (h : Handle) : Prop :=
  h ∈ c.liveHandles ∧ h ∉ (c.step action).2.liveHandles

theorem settles_iff (c : Connection) (action : Action) (h : Handle) :
    c.Settles action h ↔ c.books.Live h ∧ ¬ (c.step action).2.books.Live h := by
  unfold Settles Live
  rw [mem_liveHandles_iff, mem_liveHandles_iff]

/-- Only what is done through a handle ends the wait for its return: it is dropped, or its task is polled
    or dropped. -/
theorem ends_of_settles {c : Connection} (hc : Reachable c) {action : Action} {h : Handle}
    (hsettles : c.Settles action h) : ∃ p s, c.books.Holds p h s ∧ action.Ends p h := by
  obtain ⟨⟨p, s, hold⟩, hgone⟩ := (c.settles_iff action h).1 hsettles
  have hleft : ∀ r u, ¬ (c.step action).2.books.Holds r h u := fun r u hr => hgone ⟨r, u, hr⟩
  cases hc.lifeStep action with
  | same idle status holds calls => exact absurd ((holds p h s).2 hold) (hleft p s)
  | admitted idle fresh status holds calls => exact absurd ((holds p h s).2 (Or.inl hold)) (hleft p s)
  | @passed r q k u u' st st' idle hold' found fits finish ready status holds calls =>
      by_cases hk : h = k
      · exact absurd ((holds q h u').2 (Or.inr ⟨rfl, hk, rfl⟩)) (hleft q u')
      · exact absurd ((holds p h s).2 (Or.inl ⟨hold, hk⟩)) (hleft p s)
  | @settled r k u st idle ends hold' found status holds calls =>
      by_cases hk : h = k
      · subst hk
        exact ⟨r, u, hold', ends⟩
      · exact absurd ((holds p h s).2 ⟨hold, hk⟩) (hleft p s)
  | finished isFinish found status holds calls => exact absurd ((holds p h s).2 hold) (hleft p s)

theorem throughHandle_of_ends {c : Connection} {action : Action} {p : Holder} {h : Handle}
    {s : HandleStage} (hold : c.books.Holds p h s) (ends : action.Ends p h) :
    c.throughHandle action = some h := by
  have htask : ∀ t, p = .task t → ∃ stage, (c.tasks.get? t).map Task.work = some (.sendReturn h stage) := by
    rintro t rfl
    obtain ⟨⟨work, guard⟩, hget, howes⟩ := Option.bind_eq_some_iff.1 hold
    cases work with
    | accept stage => exact absurd howes (by simp [Work.owes])
    | disconnect e stage => exact absurd howes (by simp [Work.owes])
    | sendReturn k stage =>
        obtain ⟨v, -, heq⟩ := Option.map_eq_some_iff.1 howes
        obtain ⟨rfl, -⟩ := Prod.mk.inj heq
        refine ⟨stage, ?_⟩
        rw [show c.tasks.get? t = _ from hget]
        rfl
  cases action with
  | dropHandle k => exact congrArg some ends.2
  | poll t =>
      obtain ⟨stage, hwork⟩ := htask t ends
      simp [throughHandle, hwork]
  | dropTask t =>
      obtain ⟨stage, hwork⟩ := htask t ends
      simp [throughHandle, hwork]
  | _ => exact ends.elim

/-! ## Leaving and staying -/

/-- A record leaves the table at the step of its second signal. -/
theorem get?_eq_none_iff {c : Connection} (hc : Reachable c) {id : AnswerId} {a : Answer}
    (ha : c.answers.get? id = some a) (action : Action) :
    (c.step action).2.answers.get? id = none ↔
      a.state.returnSent = true ∧ action.IsFinish id ∨
        a.state.finishReceived = true ∧ c.Settles action ⟨id, a.call⟩ := by
  have found : c.books.status id = some (a.call, a.state) := status_of_get? ha
  obtain ⟨st', hst', hsent, hfinish, -⟩ := (hc.lifeStep action).record hc.custody found
  have hnone : (c.step action).2.answers.get? id = none ↔ st'.isDone = true := by
    refine ((c.step action).2.books.status_eq_none_iff id).symm.trans ?_
    rw [hst']
    unfold staying
    cases st'.isDone <;> simp
  have hpending : ¬ (a.state.returnSent = true ∧ a.state.finishReceived = true) := by
    rw [← AnswerState.isDone_iff, hc.custody.not_done found]
    simp
  -- one step is not both signals
  have hone : c.Settles action ⟨id, a.call⟩ → ¬ action.IsFinish id := by
    intro hset hf
    obtain ⟨hlive, hgone⟩ := (c.settles_iff action _).1 hset
    exact hgone (((hc.lifeStep action).live_of_finish hf _).2 hlive)
  rw [hnone, AnswerState.isDone_iff, hsent, hfinish, ← settles_iff]
  constructor
  · rintro ⟨hs | hs, hf | hf⟩
    · exact absurd ⟨hs, hf⟩ hpending
    · exact Or.inl ⟨hs, hf⟩
    · exact Or.inr ⟨hf, hs⟩
    · exact absurd hf (hone hs)
  · rintro (⟨hs, hf⟩ | ⟨hf, hs⟩)
    · exact ⟨Or.inl hs, Or.inr hf⟩
    · exact ⟨Or.inr hs, Or.inl hf⟩

/-- What a step makes of a record that stays. -/
theorem flags_step {c : Connection} (hc : Reachable c) {id : AnswerId} {a b : Answer} (action : Action)
    (ha : c.answers.get? id = some a) (hb : (c.step action).2.answers.get? id = some b) :
    b.call = a.call ∧
      (b.state.returnSent = true ↔
        a.state.returnSent = true ∨ c.Settles action ⟨id, a.call⟩) ∧
      (b.state.finishReceived = true ↔ a.state.finishReceived = true ∨ action.IsFinish id) ∧
      (a.state.resultsReady = true → b.state.resultsReady = true) := by
  obtain ⟨st', hst', hsent, hfinish, hready⟩ :=
    (hc.lifeStep action).record hc.custody (status_of_get? ha)
  have found : (c.step action).2.books.status id = some (b.call, b.state) := status_of_get? hb
  rw [found] at hst'
  obtain ⟨hcall, rfl, -⟩ := staying_eq_some_iff.1 hst'.symm
  rw [settles_iff]
  exact ⟨hcall.symm, hsent, hfinish, hready⟩

/-- Only the owner of a handle ends the wait for its return, and the handle finds its answer then. -/
theorem through_of_settles {c : Connection} (hc : Reachable c) {action : Action} {h : Handle}
    (hset : c.Settles action h) : c.FindsOwn h false ∧ c.throughHandle action = some h ∧
      (action = .dropHandle h ∨ ∃ t, action = .poll t ∨ action = .dropTask t) := by
  obtain ⟨p, s, hold, ends⟩ := ends_of_settles hc hset
  refine ⟨findsOwn_of_holds hc.custody hold, throughHandle_of_ends hold ends, ?_⟩
  cases action with
  | dropHandle k => exact Or.inl (congrArg _ ends.2)
  | poll t => exact Or.inr ⟨t, Or.inl rfl⟩
  | dropTask t => exact Or.inr ⟨t, Or.inr rfl⟩
  | _ => exact ends.elim

/-- The record of a call over a run. -/
theorem keptBy_after {c : Connection} (hc : Reachable c) {id id' : AnswerId} {a b : Answer}
    (actions : List Action) (ha : c.answers.get? id = some a)
    (hb : (c.after actions).answers.get? id' = some b) (hcall : b.call = a.call) :
    id' = id ∧ a.state.KeptBy b.state := by
  have found : c.books.status id = some (a.call, a.state) := status_of_get? ha
  have found' : (c.after actions).books.status id' = some (a.call, b.state) :=
    hcall ▸ status_of_get? hb
  obtain ⟨st, hst, hkept⟩ := before_of_after hc actions (hc.custody.call_lt found) found'
  obtain rfl : id' = id := hc.custody.call_inj hst found
  rw [found] at hst
  obtain ⟨-, rfl⟩ := Prod.mk.inj (Option.some.inj hst)
  exact ⟨rfl, hkept⟩

theorem after_append (c : Connection) (actions more : List Action) :
    c.after (actions ++ more) = (c.after actions).after more :=
  List.foldl_append

/-- A call that was forgotten stays so. -/
theorem forgets_append {c : Connection} (hc : Reachable c) {call : CallId} (hlt : call < c.nextCall)
    (actions more : List Action) (hgone : (c.after actions).Forgets call) :
    (c.after (actions ++ more)).Forgets call := by
  intro id b hb hcall
  rw [after_append] at hb
  have hlt' : call < (c.after actions).nextCall :=
    Nat.lt_of_lt_of_le hlt (nextCall_le_after hc actions)
  have found : ((c.after actions).after more).books.status id = some (call, b.state) :=
    hcall ▸ status_of_get? hb
  obtain ⟨st, hst, -⟩ := before_of_after (hc.after actions) more hlt' found
  obtain ⟨b₁, hb₁, hcall₁, -⟩ := (status_eq_some_iff _ _ _ _).1 hst
  exact hgone id b₁ hb₁ hcall₁

/-! ## All connections -/

/-- How answers come to leave the table. -/
structure CompletesInOrder (c : Connection) : Prop where
  not_done : ∀ id a, c.answers.get? id = some a → a.state.isDone = false
  /-- A record leaves at the step of its second signal, whichever that is. -/
  leaves : ∀ id a action, c.answers.get? id = some a →
    ((c.step action).2.answers.get? id = none ↔
      a.state.returnSent = true ∧ action.IsFinish id ∨
        a.state.finishReceived = true ∧ c.Settles action ⟨id, a.call⟩)
  /-- Until then it stays with its flags, and a signal sets its own. -/
  stays : ∀ id a action b, c.answers.get? id = some a → (c.step action).2.answers.get? id = some b →
    b.call = a.call ∧
      (b.state.returnSent = true ↔
        a.state.returnSent = true ∨ c.Settles action ⟨id, a.call⟩) ∧
      (b.state.finishReceived = true ↔ a.state.finishReceived = true ∨ action.IsFinish id) ∧
      (a.state.resultsReady = true → b.state.resultsReady = true)
  /-- A return is marked sent only through the handle that owes it: the handle is dropped, or its task
      is polled or dropped. -/
  settles : ∀ action h, c.Settles action h → c.FindsOwn h false ∧
    c.throughHandle action = some h ∧
    (action = .dropHandle h ∨ ∃ t, action = .poll t ∨ action = .dropTask t)
  /-- Over a run a record keeps its id, and no flag is taken back. -/
  lasts : ∀ id a actions id' b, c.answers.get? id = some a →
    (c.after actions).answers.get? id' = some b → b.call = a.call →
    id' = id ∧ a.state.KeptBy b.state
  /-- A record that has left does not come back. -/
  once : ∀ id a actions more, c.answers.get? id = some a → (c.after actions).Forgets a.call →
    (c.after (actions ++ more)).Forgets a.call

/-- On every connection that can come about, answers leave the table in order. -/
theorem Reachable.completesInOrder {c : Connection} (hc : Reachable c) : c.CompletesInOrder where
  not_done _ _ ha := hc.custody.not_done (status_of_get? (b := c.books) ha)
  leaves _ _ action ha := get?_eq_none_iff hc ha action
  stays _ _ action _ ha hb := flags_step hc action ha hb
  settles _ _ hset := through_of_settles hc hset
  lasts _ _ actions _ _ ha hb hcall := keptBy_after hc actions ha hb hcall
  once _ _ actions more ha hgone :=
    forgets_append hc (hc.custody.call_lt (status_of_get? (b := c.books) ha)) actions more hgone

theorem completesInOrder_after_finish :
    let c := (initial {}).after
      [.newAnswer 7 "call", .sendReturn ⟨7, 0⟩ (.ok ()) none, .finish 7 false]
    c.answers.contains 7 = true ∧ (c.step (.poll 0)).2.answers.contains 7 = false ∧
      c.CompletesInOrder :=
  ⟨by decide +kernel, by decide +kernel, ((Reachable.initial {}).after _).completesInOrder⟩

end Connection

end Callee
