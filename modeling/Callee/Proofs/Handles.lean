import Callee.Proofs.Lifecycle
import Callee.Proofs.Tables

set_option autoImplicit false

/-! # Handles and answers, one by one

What `Custody` comes to for those who use a connection. The handles that still owe a return are, one by
one and with the same ids, the answers whose return was not sent, so a handle in use always finds the
answer of its own call (`Reachable.handlesMatch`). A handle that has nothing to do with the answer under
its id, because that one belongs to a later call, neither reads nor changes any answer: what it does
comes out the same whatever the table of answers holds. -/

namespace Callee.Connection

open Books

/-! ## Both sides as lists -/

/-- The handles that still owe a return: those that stand alone, and those in tasks whose return is
    not marked sent. -/
def liveHandles (c : Connection) : List Handle :=
  (c.handles.entries.map fun e => ⟨e.2, e.1⟩) ++
    c.tasks.entries.filterMap fun e => e.2.work.owes.map Prod.fst

/-- The answers whose return is not marked sent, each as the handle that belongs to it. -/
def unreturned (c : Connection) : List Handle :=
  c.answers.entries.filterMap fun e =>
    if e.2.state.returnSent then none else some ⟨e.1, e.2.call⟩

theorem mem_liveHandles_iff (c : Connection) (h : Handle) :
    h ∈ c.liveHandles ↔ ∃ p s, c.books.Holds p h s := by
  unfold liveHandles
  rw [List.mem_append, List.mem_map, List.mem_filterMap]
  constructor
  · rintro (⟨⟨call, id⟩, hin, rfl⟩ | ⟨⟨t, task⟩, hin, hfst⟩)
    · exact ⟨.executor, .building, (c.handles.mem_entries_iff call id).1 hin, rfl⟩
    · obtain ⟨⟨k, s⟩, howes, rfl⟩ := Option.map_eq_some_iff.1 hfst
      have hget := (c.tasks.mem_entries_iff t task).1 hin
      exact ⟨.task t, s, (taskOwes_of_get? hget).trans howes⟩
  · rintro ⟨p, s, hold⟩
    cases p with
    | executor => exact Or.inl ⟨(h.call, h.id), (c.handles.mem_entries_iff _ _).2 hold.1, rfl⟩
    | task t =>
        obtain ⟨task, hget, howes⟩ := Option.bind_eq_some_iff.1 hold
        refine Or.inr ⟨(t, task), (c.tasks.mem_entries_iff t task).2 hget, ?_⟩
        show task.work.owes.map Prod.fst = some h
        rw [howes]
        rfl

theorem nodup_liveHandles {c : Connection} (hb : c.books.Custody) : c.liveHandles.Nodup := by
  refine List.nodup_append.2 ⟨?_, ?_, ?_⟩
  · refine (List.pairwise_map.1 c.handles.nodup_keys).map _ fun e e' hne heq => ?_
    exact hne (congrArg Handle.call heq)
  · refine c.tasks.nodup_filterMap_entries _ fun t task t' task' h hget hget' hfst hfst' => ?_
    obtain ⟨⟨k, s⟩, howes, rfl⟩ := Option.map_eq_some_iff.1 hfst
    obtain ⟨⟨k', s'⟩, howes', rfl⟩ := Option.map_eq_some_iff.1 hfst'
    have hold : c.books.Holds (.task t) k' s := (taskOwes_of_get? hget).trans howes
    have hold' : c.books.Holds (.task t') k' s' := (taskOwes_of_get? hget').trans howes'
    exact Holder.task.inj (hb.single hold hold')
  · intro h hin k hin' heq
    subst heq
    obtain ⟨⟨call, id⟩, hentry, rfl⟩ := List.mem_map.1 hin
    obtain ⟨⟨t, task⟩, htask, hfst⟩ := List.mem_filterMap.1 hin'
    obtain ⟨⟨k, s⟩, howes, rfl⟩ := Option.map_eq_some_iff.1 hfst
    have hold : c.books.Holds .executor ⟨id, call⟩ .building :=
      ⟨(c.handles.mem_entries_iff call id).1 hentry, rfl⟩
    have hold' : c.books.Holds (.task t) ⟨id, call⟩ s :=
      (taskOwes_of_get? ((c.tasks.mem_entries_iff t task).1 htask)).trans howes
    exact absurd (hb.single hold hold') (by simp)

theorem mem_unreturned_iff (c : Connection) (h : Handle) :
    h ∈ c.unreturned ↔ ∃ st, c.books.status h.id = some (h.call, st) ∧ st.returnSent = false := by
  unfold unreturned
  rw [List.mem_filterMap]
  constructor
  · rintro ⟨⟨id, a⟩, hin, hsome⟩
    have hget := (c.answers.mem_entries_iff id a).1 hin
    dsimp only at hsome
    split at hsome
    · exact absurd hsome (by simp)
    · next hsent =>
        obtain rfl := Option.some.inj hsome
        exact ⟨a.state, (status_eq_some_iff _ _ _ _).2 ⟨a, hget, rfl, rfl⟩, by simpa using hsent⟩
  · rintro ⟨st, found, hsent⟩
    obtain ⟨a, hget, hcall, rfl⟩ := (status_eq_some_iff _ _ _ _).1 found
    refine ⟨(h.id, a), (c.answers.mem_entries_iff h.id a).2 hget, ?_⟩
    simp [hsent, hcall]

theorem nodup_unreturned (c : Connection) : (c.unreturned.map Handle.id).Nodup := by
  unfold unreturned
  rw [List.map_filterMap]
  refine c.answers.nodup_filterMap_entries _ fun id a id' a' j hget hget' hj hj' => ?_
  obtain ⟨h, hin, rfl⟩ := Option.map_eq_some_iff.1 hj
  obtain ⟨h', hin', heq⟩ := Option.map_eq_some_iff.1 hj'
  dsimp only at hin hin'
  split at hin
  · exact absurd hin (by simp)
  · split at hin'
    · exact absurd hin' (by simp)
    · obtain rfl := Option.some.inj hin
      obtain rfl := Option.some.inj hin'
      exact heq.symm

theorem liveHandles_perm {c : Connection} (hb : c.books.Custody) :
    c.liveHandles.Perm c.unreturned := by
  have hnodup : c.unreturned.Nodup :=
    List.Pairwise.of_map Handle.id (fun h k hne heq => hne (congrArg Handle.id heq))
      c.nodup_unreturned
  refine (List.perm_ext_iff_of_nodup (nodup_liveHandles hb) hnodup).2 fun h => ?_
  rw [mem_liveHandles_iff, mem_unreturned_iff]
  constructor
  · rintro ⟨p, s, hold⟩
    obtain ⟨st, found, fit⟩ := hb.found hold
    exact ⟨st, found, fit.unsent⟩
  · rintro ⟨st, found, hsent⟩
    exact hb.held found hsent

/-! ## What a handle finds -/

/-- A handle finds the answer of its own call, with its return not yet marked sent. If the completion
    saw the peer's finish when it began, then marking the return sent completes the answer. -/
def FindsOwn (c : Connection) (h : Handle) (finishReceived : Bool) : Prop :=
  ∃ a, c.answers.get? h.id = some a ∧ a.call = h.call ∧ a.state.returnSent = false ∧
    (finishReceived = true → a.markReturnSent.state.isDone = true)

theorem findsOwn_of_status {c : Connection} {h : Handle} {st : AnswerState} {f : Bool}
    (found : c.books.status h.id = some (h.call, st)) (unsent : st.returnSent = false)
    (finish : f = true → st.finishReceived = true) : c.FindsOwn h f := by
  obtain ⟨a, hget, hcall, rfl⟩ := (status_eq_some_iff _ _ _ _).1 found
  refine ⟨a, hget, hcall, unsent, fun hf => ?_⟩
  rw [AnswerState.isDone_iff]
  exact ⟨AnswerState.returnSent_markReturnSent _,
    (AnswerState.finishReceived_markReturnSent _).trans (finish hf)⟩

theorem FindsOwn.pollSend {c : Connection} {h : Handle} {f : Bool} (hf : c.FindsOwn h f) (t : TaskId)
    (call : Option CallId) (send : SendStage) : (c.pollSend t call send).2.FindsOwn h f := by
  have hbooks := congrArg Books.answers (c.books_pollSend t call send)
  have hanswers : (c.pollSend t call send).2.answers = c.answers := hbooks
  unfold FindsOwn
  rw [hanswers]
  exact hf

theorem findsOwn_of_holds {c : Connection} (hb : c.books.Custody) {p : Holder} {h : Handle}
    {s : HandleStage} (hold : c.books.Holds p h s) : c.FindsOwn h false := by
  obtain ⟨st, found, fit⟩ := hb.found hold
  exact findsOwn_of_status found fit.unsent (by simp)

/-! ## What a stale handle does -/

/-- The handle that an action goes through: the one that it names, or the one in the task that it
    polls or drops. -/
def throughHandle (c : Connection) : Action → Option Handle
  | .allocateResults h _ => some h
  | .setBootstrap h _ => some h
  | .sendReturn h _ _ => some h
  | .dropHandle h => some h
  | .poll t | .dropTask t =>
      match (c.tasks.get? t).map Task.work with
      | some (.sendReturn h _) => some h
      | _ => none
  | _ => none

/-- A handle under whose id there is the answer of another call owes nothing any more. -/
theorem not_holds_of_stale {c : Connection} (hb : c.books.Custody) {h : Handle} {a : Answer}
    (hget : c.answers.get? h.id = some a) (hcall : a.call ≠ h.call) (p : Holder) (s : HandleStage) :
    ¬ c.books.Holds p h s := by
  intro hold
  obtain ⟨b, hb', hown, -⟩ := hb.found_at hold
  obtain rfl : a = b := Option.some.inj (hget.symm.trans hb')
  exact hcall hown

theorem dropTask_of_draining (c : Connection) {t : TaskId} {h : Handle} {w : Wait}
    {guard : Option Token} (hget : c.tasks.get? t = some ⟨.sendReturn h (.draining w), guard⟩)
    (answers : Table AnswerId Answer) :
    ({ c with answers := answers }).dropTask t = { c.dropTask t with answers := answers } := by
  simp only [dropTask, hget, freeSender]
  split <;> rfl

theorem poll_of_draining (c : Connection) {t : TaskId} {h : Handle} {w : Wait}
    {guard : Option Token} (hget : c.tasks.get? t = some ⟨.sendReturn h (.draining w), guard⟩)
    (answers : Table AnswerId Answer) :
    ({ c with answers := answers }).poll t =
      ((c.poll t).1, { (c.poll t).2 with answers := answers }) := by
  have hdrop := c.dropTask_of_draining hget answers
  have hguard : guard.any ({ c with answers := answers }).isCanceled = guard.any c.isCanceled := rfl
  cases hcancel : guard.any c.isCanceled with
  | true => simp [poll, hget, hguard, hcancel, hdrop]
  | false =>
      simp only [poll, hget, hguard, hcancel, Bool.false_eq_true, if_false, run, pollReturn,
        awaitDeliveries, deliveriesOf, putDeliveries]
      cases (((c.deliveries.get? h.call).getD {}).poll w).1 <;> rfl

/-- What is done through a stale handle does not depend on the table of answers and leaves it. -/
theorem step_of_stale {c : Connection} (hb : c.books.Custody) {action : Action} {h : Handle}
    {a : Answer} (hthrough : c.throughHandle action = some h) (hget : c.answers.get? h.id = some a)
    (hcall : a.call ≠ h.call) (answers : Table AnswerId Answer) :
    ({ c with answers := answers }).step action =
      ((c.step action).1, { (c.step action).2 with answers := answers }) := by
  have hstale := not_holds_of_stale hb hget hcall
  have hnot : c.handles.get? h.call ≠ some h.id := fun hin => hstale .executor .building ⟨hin, rfl⟩
  -- a task with such a handle only waits for deliveries
  have hdraining : ∀ {t : TaskId} {k : Handle} {stage : ReturnStage} {guard : Option Token},
      c.tasks.get? t = some ⟨.sendReturn k stage, guard⟩ → k = h → ∃ w, stage = .draining w := by
    rintro t k stage guard htask rfl
    have howes : ∀ s, stage.owes ≠ some s := by
      intro s hs
      refine hstale (.task t) s ((taskOwes_of_get? htask).trans ?_)
      simp [Work.owes, hs]
    cases stage with
    | unbegun result => exact absurd rfl (howes .building)
    | sending send f => exact absurd rfl (howes (.sending f))
    | draining w => exact ⟨w, rfl⟩
  cases action with
  | allocateResults k size =>
      obtain rfl := Option.some.inj hthrough
      simp [step, holds, hnot]
  | setBootstrap k cap =>
      obtain rfl := Option.some.inj hthrough
      simp [step, holds, hnot]
  | sendReturn k result guard =>
      obtain rfl := Option.some.inj hthrough
      simp [step, holds, hnot]
  | dropHandle k =>
      obtain rfl := Option.some.inj hthrough
      simp [step, holds, hnot]
  | poll t =>
      simp only [throughHandle] at hthrough
      split at hthrough
      · next k stage heq =>
          obtain ⟨⟨work, guard⟩, htask, rfl⟩ := Option.map_eq_some_iff.1 heq
          obtain ⟨w, rfl⟩ := hdraining htask (Option.some.inj hthrough)
          have hpoll := c.poll_of_draining htask answers
          simp only [step, hpoll]
      · exact absurd hthrough (by simp)
  | dropTask t =>
      simp only [throughHandle] at hthrough
      split at hthrough
      · next k stage heq =>
          obtain ⟨⟨work, guard⟩, htask, rfl⟩ := Option.map_eq_some_iff.1 heq
          obtain ⟨w, rfl⟩ := hdraining htask (Option.some.inj hthrough)
          have hdrop := c.dropTask_of_draining htask answers
          simp [step, Table.contains, htask, hdrop]
      · exact absurd hthrough (by simp)
  | _ => exact absurd hthrough (by simp [throughHandle])

/-! ## All connections -/

/-- How handles and answers belong together. -/
structure HandlesMatch (c : Connection) : Prop where
  /-- The handles that still owe a return are the answers whose return was not sent. -/
  perm : c.liveHandles.Perm c.unreturned
  nodup_ids : (c.liveHandles.map Handle.id).Nodup
  /-- A handle that stands alone finds its answer. -/
  alone : ∀ h, c.holds h = true → c.FindsOwn h false
  /-- A completion that has yet to begin finds its answer, and finds it again when the return is to be
      marked sent, whether it was looked after in between or not. -/
  unbegun : ∀ t task h result, c.tasks.get? t = some task →
    task.work = .sendReturn h (.unbegun result) → c.FindsOwn h false ∧
      ∃ begun c', c.beginReturn h.id result = (some begun, c') ∧
        c'.FindsOwn h begun.finishReceived ∧
        ∀ send, (c'.pollSend t (some h.call) send).2.FindsOwn h begun.finishReceived
  /-- So does one whose return is on its way out. -/
  sending : ∀ t task h send f, c.tasks.get? t = some task →
    task.work = .sendReturn h (.sending send f) →
      c.FindsOwn h f ∧ (c.pollSend t (some h.call) send).2.FindsOwn h f
  /-- A handle whose id now belongs to another call neither reads nor changes the answers. -/
  stale : ∀ action h a, c.throughHandle action = some h → c.answers.get? h.id = some a →
    a.call ≠ h.call → ∀ answers, ({ c with answers := answers }).step action =
      ((c.step action).1, { (c.step action).2 with answers := answers })

theorem handlesMatch_of_custody {c : Connection} (hb : c.books.Custody) : c.HandlesMatch where
  perm := liveHandles_perm hb
  nodup_ids := ((liveHandles_perm hb).map Handle.id).nodup_iff.2 c.nodup_unreturned
  alone h hheld := findsOwn_of_holds hb (holds_executor hheld)
  unbegun t task h result hget hwork := by
    have hold : c.books.Holds (.task t) h .building := by
      refine (taskOwes_of_get? hget).trans ?_
      rw [hwork]
      rfl
    obtain ⟨st, found, fit⟩ := hb.found hold
    obtain ⟨begun, c', heq, hfin, -, hstatus⟩ := c.beginReturn_life result found
    have found' : c'.books.status h.id = some (h.call, st.markResultsReady) := by
      rw [hstatus, if_pos rfl]
    have hown : c'.FindsOwn h begun.finishReceived :=
      findsOwn_of_status found' fit.unsent fun hf => hfin.symm.trans hf
    exact ⟨findsOwn_of_holds hb hold, begun, c', heq, hown, fun send => hown.pollSend t _ send⟩
  sending t task h send f hget hwork := by
    have hold : c.books.Holds (.task t) h (.sending f) := by
      refine (taskOwes_of_get? hget).trans ?_
      rw [hwork]
      rfl
    obtain ⟨st, found, fit⟩ := hb.found hold
    have hown : c.FindsOwn h f := findsOwn_of_status found fit.unsent fit.2.2
    exact ⟨hown, hown.pollSend t _ send⟩
  stale action h a hthrough hget hcall := step_of_stale hb hthrough hget hcall

/-- On every connection that can come about, handles and answers belong together one by one. -/
theorem Reachable.handlesMatch {c : Connection} (hc : Reachable c) : c.HandlesMatch :=
  handlesMatch_of_custody hc.custody

/-- A run that uses an id again while a task still waits for a delivery of the first call under it. -/
def reusingRun : List Action :=
  [.newAnswer 7 "first", .newCaller "receiver" .hold, .setPipeline 7 "receiver",
    .forward 7 { questionId := 3, interfaceId := 0, methodId := 0, path := [] },
    .sendReturn ⟨7, 0⟩ (.ok ()) none, .poll 0, .finish 7 false, .newAnswer 7 "second"]

theorem handlesMatch_after_reuse :
    ((initial {}).after reusingRun).liveHandles = [⟨7, 1⟩] ∧
      ((initial {}).after reusingRun).throughHandle (.poll 0) = some ⟨7, 0⟩ ∧
      ((initial {}).after reusingRun).HandlesMatch :=
  ⟨by decide +kernel, by decide +kernel, ((Reachable.initial {}).after reusingRun).handlesMatch⟩

end Callee.Connection
