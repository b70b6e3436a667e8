import Callee.Proofs.Coherence
import Callee.Proofs.TakingTurns

set_option autoImplicit false

/-! # Completions that are dropped on the way out

A completion binds the record of its call to an outcome when it begins: to the error that it was given, or to
the results. When its task is dropped afterwards, while the return waits for its turn or is at the transport,
the return is marked sent and never arrives, and nothing else happens to the record. So a pipelined call goes
on coming to what it came to before (`Reachable.keepsOutcomes`). It is not told that the call was canceled,
as it would be had the task been dropped before its first poll: it may be resolved to a capability in results
that the peer never receives (`resolves_after_interruption`).

That nothing arrives any more is a matter of who owes the return: once it is marked sent nobody does, for good
(`Discharged`), and only a task that owes a return hands it over or has it at the transport. -/

namespace Callee

/-! ## Outcomes and deeds -/

/-- A call that completed with an error keeps it. -/
theorem View.foldl_error (e : Error) (ds : List Deed) :
    ds.foldl View.after (.completed (.error e)) = .completed (.error e) := by
  induction ds with
  | nil => rfl
  | cons d rest ih => cases d <;> exact ih

/-- A call that completed without an error does not get one. -/
theorem View.foldl_results (r : Option (Arena × Pointer)) (ds : List Deed) :
    ∃ r', ds.foldl View.after (.completed (.ok r)) = .completed (.ok r') := by
  induction ds generalizing r with
  | nil => exact ⟨r, rfl⟩
  | cons d rest ih =>
      rcases r with _ | ⟨a, p⟩
      · cases d <;> exact ih none
      · cases d with
        | edit struct change => exact ih (some (a.rewritten struct change, p))
        | _ => exact ih (some (a, p))

namespace Arena

theorem walk_ne_canceled (a : Arena) (p : Pointer) (path : List PathStep) :
    a.walk p path ≠ .error .callCanceled := by
  induction path generalizing p with
  | nil => exact fun h => absurd h (by simp)
  | cons step rest ih =>
      cases step with
      | stay => exact ih p
      | field index =>
          cases p with
          | null => exact ih .null
          | capability slot => exact fun h => absurd h (by simp [walk, follow])
          | struct s =>
              by_cases hs : s < a.structs.length
              · simp only [walk, follow, if_pos hs]
                exact ih _
              · exact fun h => absurd h (by simp [walk, follow, hs])

/-- A path through results may fail, but not because the call was canceled. -/
theorem resolve_ne_canceled (a : Arena) (p : Pointer) (path : List PathStep) :
    a.resolve p path ≠ .error .callCanceled := by
  have hwalk := a.walk_ne_canceled p path
  unfold resolve
  split
  · next q _ =>
      unfold target
      split
      · exact fun h => absurd h (by simp)
      · exact fun h => absurd h (by simp)
      · split <;> exact fun h => absurd h (by simp)
  · next e heq => exact fun h => hwalk (heq.trans (congrArg Except.error (Except.error.inj h)))

end Arena

/-- Nobody is told of a cancellation where the call completed without an error. -/
theorem View.forwarded_ne_canceled (id : AnswerId) (call : PipelinedCall) (r : Option (Arena × Pointer)) :
    (View.completed (.ok r)).forwarded id call ≠ .error .callCanceled := by
  rcases r with _ | ⟨a, p⟩
  · exact fun h => absurd h (by simp [forwarded])
  · have hresolve := a.resolve_ne_canceled p call.path
    simp only [forwarded]
    cases hpath : a.resolve p call.path with
    | ok cap => exact fun h => absurd h (by simp [Except.map])
    | error e =>
        rw [hpath] at hresolve
        exact fun h => hresolve (congrArg Except.error (Except.error.inj h))

namespace Connection

open Books

/-! ## Nobody owes the return any more -/

/-- The call came in before, and its record, if there is one, says that the return was sent. -/
structure Discharged (c : Connection) (call : CallId) : Prop where
  old : call < c.nextCall
  sent : ∀ id a, c.answers.get? id = some a → a.call = call → a.state.returnSent = true

namespace Discharged

variable {c : Connection} {call : CallId}

theorem after (h : c.Discharged call) (hc : Reachable c) (actions : List Action) :
    (c.after actions).Discharged call where
  old := Nat.lt_of_lt_of_le h.old (nextCall_le_after hc actions)
  sent id b hb hcall := by
    have found : (c.after actions).books.status id = some (call, b.state) := hcall ▸ status_of_get? hb
    obtain ⟨st, hst, hkept⟩ := before_of_after hc actions h.old found
    obtain ⟨a, ha, hcall', rfl⟩ := (c.books.status_eq_some_iff id call st).1 hst
    exact hkept.returnSent (h.sent id a ha hcall')

/-- No handle owes the return of the call. -/
theorem not_holds (h : c.Discharged call) (hc : Reachable c) {p : Holder} {k : Handle} {s : HandleStage}
    (hold : c.books.Holds p k s) : k.call ≠ call := by
  intro hcall
  obtain ⟨a, ha, hown, hfit⟩ := hc.custody.found_at hold
  have hsent := h.sent k.id a ha (hown.trans hcall)
  exact absurd (hfit.unsent.symm.trans hsent) (by simp)

/-- The return may not go out any more. -/
theorem not_unsent (h : c.Discharged call) (hc : Reachable c) : ¬ c.Unsent call := by
  rintro (hnew | ⟨id, a, ha, hcall, hmsg⟩ | ⟨t, k, e, hq, hcall⟩)
  · exact Nat.not_lt_of_le hnew h.old
  · have hrecord := hc.coherent_record ha
    exact hmsg (hrecord.parted (hrecord.sent (h.sent id a ha hcall)))
  · obtain ⟨f, hold⟩ := hq.holds
    exact h.not_holds hc hold hcall

/-- It is not at the transport. -/
theorem not_transmits (h : c.Discharged call) (hc : Reachable c) {t : TaskId} {x : Turn}
    (ht : c.Transmits t x) : x.1 ≠ some call := by
  obtain ⟨e, gate, hout, -⟩ := ht
  obtain ⟨⟨work, guard⟩, hget, hwork⟩ := Option.bind_eq_some_iff.1 hout
  rcases Work.outgoing?_cases hwork with ⟨k, f, rfl, hwho⟩ | ⟨y, -, hwho⟩
  · have hold : c.books.Holds (.task t) k (.sending f) := taskOwes_of_get? (b := c.books) hget
    rw [hwho]
    exact fun hcall => h.not_holds hc hold (Option.some.inj hcall)
  · rw [hwho]
    exact fun hcall => absurd hcall (by simp)

/-- Nor is it handed over. -/
theorem not_enters (h : c.Discharged call) (hc : Reachable c) {action : Action} {t : TaskId} {x : Turn}
    (henters : c.Enters action t x) : x.1 ≠ some call := by
  intro hx
  have hsame : (c.step action).2.sends call = c.sends call := sends_after hc (h.not_unsent hc) [action]
  have hcount := count_turns_some (c.step action).2 call
  rw [henters.turns, List.map_cons, hx, List.count_cons_self, count_turns_some, hsame] at hcount
  exact absurd hcount (Nat.succ_ne_self _)

/-- So the transport accepts it no more, whatever happens. -/
theorem arrivals_after (h : c.Discharged call) (hc : Reachable c)
    (hnot : some call ∉ c.lane.arrivals.map Prod.fst) (actions : List Action) :
    some call ∉ (c.after actions).lane.arrivals.map Prod.fst := by
  induction actions generalizing c with
  | nil => exact hnot
  | cons action rest ih =>
      refine ih (h.after hc [action]) (.step action hc) ?_
      rcases (traffic_step hc action).2 with hsame | ⟨t, x, -, hfrom, harrives⟩
      · rw [hsame]
        exact hnot
      · rw [harrives, List.map_cons]
        refine List.not_mem_cons_of_ne_of_not_mem (Ne.symm ?_) hnot
        rcases hfrom with ht | henters
        · exact h.not_transmits hc ht
        · exact h.not_enters hc henters

end Discharged

/-! ## Dropping a completion on the way out -/

/-- Dropping the task of a completion that has begun ends the return, and that is all it does to records and
    exports. -/
theorem dropTask_of_sending {c : Connection} {t : TaskId} {h : Handle} {send : SendStage} {f : Bool}
    {guard : Option Token} (hget : c.tasks.get? t = some ⟨.sendReturn h (.sending send f), guard⟩) :
    (∀ j, (c.dropTask t).answers.get? j = (c.endReturn h.id).answers.get? j) ∧
      (c.dropTask t).exports = c.exports := by
  let d := ({ c with tasks := c.tasks.erase t }).freeSender t
  have hdrop : c.dropTask t = d.endReturn h.id := by
    unfold dropTask
    rw [hget]
  have hanswers : d.answers = c.answers := congrArg Books.answers (books_freeSender _ t)
  have hexports : d.exports = c.exports := congrArg Books.exports (books_freeSender _ t)
  have hended := (works_endReturn h.id).performs d
  rw [hanswers] at hended
  rw [hdrop]
  refine ⟨fun j => ?_, ?_⟩
  · rw [hended.answers, ((works_endReturn h.id).performs c).answers, hanswers]
  · have hback : (ending h.id (c.answers.get? h.id)).back = [] := by cases c.answers.get? h.id <;> rfl
    rw [hended.exports, hback, hexports]
    rfl

/-- A return that waits or is at the transport has not arrived. -/
theorem not_mem_arrivals_of_sending {c : Connection} (hc : Reachable c) {t : TaskId} {h : Handle}
    {send : SendStage} {f : Bool} {guard : Option Token}
    (hget : c.tasks.get? t = some ⟨.sendReturn h (.sending send f), guard⟩) :
    some h.call ∉ c.lane.arrivals.map Prod.fst := by
  cases send with
  | waiting e =>
      have hq : c.Queued h.call := ⟨t, h, e, ⟨f, guard, hget⟩, rfl⟩
      have hbefore : c.sends h.call = [] := hc.sends_of_unsent (Or.inr (Or.inr hq))
      have hturns : some h.call ∉ c.lane.turns.map Prod.fst := by
        rw [← List.count_eq_zero, count_turns_some, hbefore]
        rfl
      exact fun hin => hturns ((hc.inTurn.order.map Prod.fst).subset hin)
  | transmitting e gate =>
      -- its turn was the last one, and no turn comes twice
      have ht : c.Transmits t (some h.call, e.root) := ⟨e, gate, outgoing_of_get? hget, rfl⟩
      obtain ⟨rest, hturns, harrivals⟩ := hc.inTurn.current t _ ht
      have hnodup := hc.nodup_turns
      rw [hturns, List.map_cons] at hnodup
      exact fun hin => (List.nodup_cons.1 hnodup).1 ((harrivals.map Prod.fst).subset hin)

/-- What is left of a call whose completion is dropped while the return is on its way. -/
structure Interrupted (c : Connection) (action : Action) (h : Handle) : Prop where
  /-- The record was ready before. It leaves if the peer's finish is in, and says otherwise that the return
      was sent. -/
  record : ∃ a, c.answers.get? h.id = some a ∧ a.call = h.call ∧ a.state.resultsReady = true ∧
    (c.step action).2.answers.get? h.id = if a.state.finishReceived then none else some a.markReturnSent
  others : ∀ j, j ≠ h.id → (c.step action).2.answers.get? j = c.answers.get? j
  exports : (c.step action).2.exports = c.exports
  /-- The return does not arrive. -/
  lost : ∀ more, some h.call ∉ (c.after (action :: more)).lane.arrivals.map Prod.fst
  /-- As long as the record stays, a pipelined call comes to what it came to before, unless a field that its
      path reads is pointed elsewhere. -/
  forwards : ∀ a b more call, c.answers.get? h.id = some a →
    (c.after (action :: more)).answers.get? h.id = some b → b.call = h.call →
    (∀ field ∈ along repoints c (action :: more), field ∉ c.reads a call.path) →
    ((c.after (action :: more)).forward h.id call).1 = (c.forward h.id call).1

theorem interrupted {c : Connection} (hc : Reachable c) {t : TaskId} {h : Handle} {send : SendStage}
    {f : Bool} {guard : Option Token} {action : Action}
    (hget : c.tasks.get? t = some ⟨.sendReturn h (.sending send f), guard⟩) (hdrops : c.Drops t action) :
    c.Interrupted action h := by
  have hold : c.books.Holds (.task t) h (.sending f) := taskOwes_of_get? (b := c.books) hget
  obtain ⟨a, ha, hcall, hunsent, hready, -⟩ := hc.custody.found_at hold
  obtain ⟨hanswers, hexports⟩ := dropTask_of_sending hget
  have hended := ((works_endReturn h.id).performs c).answers
  have hstep := step_of_drops hget hdrops
  have hdone : a.markReturnSent.state.isDone = a.state.finishReceived := by
    rw [Bool.eq_iff_iff, AnswerState.isDone_iff]
    simp [Answer.markReturnSent]
  have hrecord : (c.step action).2.answers.get? h.id =
      if a.state.finishReceived then none else some a.markReturnSent := by
    rw [hstep, hanswers, hended, if_pos rfl, show c.answers.get? h.id = some a from ha]
    simp only [ending, hdone]
  have hothers : ∀ j, j ≠ h.id → (c.step action).2.answers.get? j = c.answers.get? j := by
    intro j hj
    rw [hstep, hanswers, hended, if_neg hj]
  have hdischarged : (c.step action).2.Discharged h.call := by
    refine ⟨?_, fun id b hb hown => ?_⟩
    · exact Nat.lt_of_lt_of_le (hcall ▸ hc.call_lt ha) (hc.lifeStep action).nextCall_le
    · by_cases hid : id = h.id
      · rw [hid, hrecord] at hb
        split at hb
        · exact absurd hb (by simp)
        · obtain rfl := Option.some.inj hb
          exact AnswerState.returnSent_markReturnSent _
      · exact absurd (hc.record_unique ha (hothers id hid ▸ hb) (hown.trans hcall.symm)).1 hid
  have hlane : (c.step action).2.lane.arrivals = c.lane.arrivals := by
    rw [(lane_step_of_drops hget hdrops).1, Lane.without]
    split <;> rfl
  exact
    { record := ⟨a, ha, hcall, hready, hrecord⟩
      others := hothers
      exports := by rw [hstep, hexports]
      lost := hdischarged.arrivals_after (.step action hc) (hlane ▸ not_mem_arrivals_of_sending hc hget)
      forwards := by
        intro a' b more call ha' hb hown hread
        obtain rfl := Option.some.inj (ha'.symm.trans ha)
        exact (hc.frozen ha' hready hb (hown.trans hcall.symm) hread).2 }

/-! ## What a completion leaves -/

/-- From its first poll on a call shows what it completed with, whatever becomes of its return. -/
theorem completed_after {c : Connection} (hc : Reachable c) {t : TaskId} {h : Handle}
    {result : Except Error Unit} {guard : Option Token}
    (hget : c.tasks.get? t = some ⟨.sendReturn h (.unbegun result), guard⟩)
    (hlive : guard.any c.isCanceled = false) {more : List Action} {v : View}
    (hview : (c.after (.poll t :: more)).view? h = some v) :
    (∀ e, result = .error e → v = .completed (.error e)) ∧
      (result = .ok () → ∃ r, v = .completed (.ok r)) := by
  have hold : c.books.Holds (.task t) h .building := taskOwes_of_get? (b := c.books) hget
  obtain ⟨a, ha, hcall, -⟩ := hc.custody.found_at hold
  obtain ⟨caller, draft, hrun⟩ := exists_running hc hold
  obtain ⟨u, hu, rfl⟩ := view?_after hc (hcall ▸ hc.call_lt ha) _ hview
  obtain rfl := Option.some.inj (hu.symm.trans hrun)
  have hdeeds : deeds h c (.poll t) = [.complete c.isDown result] := by
    simp [deeds, hget, Work.completion?, hlive]
  rw [along, hdeeds, List.foldl_append]
  refine ⟨?_, ?_⟩
  · rintro e rfl
    exact View.foldl_error e _
  · rintro rfl
    exact View.foldl_results _ _

/-! ## All connections -/

/-- A call that has begun to complete keeps its outcome. -/
structure KeepsOutcomes (c : Connection) : Prop where
  /-- Nothing but the return is lost when the completion is dropped on the way out. -/
  interrupted : ∀ t h send f guard action,
    c.tasks.get? t = some ⟨.sendReturn h (.sending send f), guard⟩ → c.Drops t action →
    c.Interrupted action h
  /-- From the first poll of its completion on, for as long as there is a record of it, a call that completes
      with an error answers with that error, and one that completes with results never answers that it was
      canceled. -/
  outcome : ∀ t h result guard more b call,
    c.tasks.get? t = some ⟨.sendReturn h (.unbegun result), guard⟩ → guard.any c.isCanceled = false →
    (c.after (.poll t :: more)).answers.get? h.id = some b → b.call = h.call →
    (∀ e, result = .error e → ((c.after (.poll t :: more)).forward h.id call).1 = .error e) ∧
      (result = .ok () → ((c.after (.poll t :: more)).forward h.id call).1 ≠ .error .callCanceled)

/-- On every connection that can come about calls keep their outcomes. -/
theorem Reachable.keepsOutcomes {c : Connection} (hc : Reachable c) : c.KeepsOutcomes where
  interrupted _ _ _ _ _ _ hget hdrops := Connection.interrupted hc hget hdrops
  outcome t h result guard more b call hget hlive hb hcall := by
    have hview := (view?_eq_some_iff _ h _).2 ⟨b, hb, hcall, rfl⟩
    obtain ⟨herror, hok⟩ := completed_after hc hget hlive hview
    rw [forward_of_view? (hc.after _) hview call]
    refine ⟨fun e he => ?_, fun he => ?_⟩
    · rw [herror e he]
      rfl
    · obtain ⟨r, hr⟩ := hok he
      rw [hr]
      exact View.forwarded_ne_canceled h.id call r

/-- A run in which one return is held up at a gate and another one, with a capability as its results, waits
    behind it. -/
def bothOnTheirWay : List Action :=
  [.newAnswer 1 "first", .newAnswer 2 "second", .setBootstrap ⟨2, 1⟩ ⟨"door", 5⟩, .gateSend,
    .sendReturn ⟨1, 0⟩ (.error (.external .failed "no")) none, .poll 0, .sendReturn ⟨2, 1⟩ (.ok ()) none,
    .poll 1]

theorem keepsOutcomes_after_interruption :
    let c := (initial {}).after bothOnTheirWay
    let call : PipelinedCall := ⟨3, 7, 0, []⟩
    (c.outgoing 0).isSome = true ∧ (c.outgoing 1).isSome = true ∧
      ((c.after [.dropTask 0]).forward 1 call).1 = .error (.external .failed "no") ∧
      ((c.after [.dropTask 1]).forward 2 call).1 = .ok (.resolved ⟨"door", 5⟩ call) ∧ c.KeepsOutcomes :=
  ⟨by decide +kernel, by decide +kernel, by decide +kernel, by decide +kernel,
    ((Reachable.initial {}).after bothOnTheirWay).keepsOutcomes⟩

/-- That the completion was dropped before the return was accepted is not told: the second call is resolved
    to its capability when its task is dropped while the return waits. -/
theorem resolves_after_interruption :
    ¬ ∀ options actions t h send f guard action call,
      ((initial options).after actions).tasks.get? t = some ⟨.sendReturn h (.sending send f), guard⟩ →
      ((initial options).after actions).Drops t action →
      (((initial options).after actions).step action).2.answers.contains h.id = true →
      ((((initial options).after actions).step action).2.forward h.id call).1 = .error .callCanceled := by
  intro h
  have hcanceled := h {} bothOnTheirWay 1 ⟨2, 1⟩ _ _ _ (.dropTask 1) ⟨3, 7, 0, []⟩ rfl rfl (by decide +kernel)
  revert hcanceled
  decide +kernel

end Connection

end Callee
