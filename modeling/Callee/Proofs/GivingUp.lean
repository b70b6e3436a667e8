import Callee.Proofs.Commuting
import Callee.Proofs.Interrupting
import Callee.Proofs.Parting

set_option autoImplicit false

/-! # Giving up on a call

The executor gives up on a call by dropping its handle, or the task that was to complete it before that was
polled (`Abandons`). Either comes to `cancelReturn` (`sheds_of_abandons`), and what that leaves does not
depend on what was built so far (`Reachable.givenUp`). The return goes away with its record's hold on it, and
nothing else referred to its arena, so the capabilities in it go too unless somebody has a handle to a struct
there. Of the record nothing is left if the peer's finish is in; otherwise it stays as that of a call that was
canceled, and leaves with the finish. -/

namespace Callee

/-! ## Counting -/

theorem List.nodup_eraseDups {α : Type} [DecidableEq α] (l : List α) : l.eraseDups.Nodup := by
  induction hlen : l.length using Nat.strong_induction_on generalizing l with
  | _ n ih =>
      cases l with
      | nil => simp
      | cons a rest =>
          rw [List.eraseDups_cons]
          refine List.nodup_cons.2 ⟨by simp [List.mem_eraseDups], ih _ ?_ _ rfl⟩
          rw [← hlen]
          exact Nat.lt_succ_of_le (List.length_filter_le _ _)

namespace Table

variable {κ α : Type} [DecidableEq κ]

omit [DecidableEq κ] in
theorem countP_values (t : Table κ α) (p : α → Bool) :
    t.values.countP p = t.total fun v => (p v).toNat := by
  unfold values total
  induction t.entries with
  | nil => rfl
  | cons e rest ih =>
      rw [List.map_cons, List.countP_cons, ih, weigh, Nat.add_comm]
      cases p e.2 <;> rfl

/-- A value that is counted gives way to one that is not, or leaves the table. -/
theorem countP_of_replaced {t t' : Table κ α} {k : κ} {v w : α} (hv : t.get? k = some v)
    (h : t' = t.insert k w ∨ t' = t.erase k) {p : α → Bool} (hw : p w = false) :
    t'.values.countP p + (p v).toNat = t.values.countP p := by
  rw [countP_values, countP_values]
  rcases h with h | h
  · have hsum := t.total_insert (fun v => (p v).toNat) k w
    simpa [h, hv, hw] using hsum
  · have hsum := t.total_erase (fun v => (p v).toNat) k
    simpa [h, hv] using hsum

end Table

/-- The record of a call that was given up on. -/
def Answer.canceled (a : Answer) : Answer := (a.complete (some .callCanceled)).markReturnSent

@[simp] theorem Answer.returnSent_canceled (a : Answer) : a.canceled.state.returnSent = true :=
  AnswerState.returnSent_markReturnSent _

@[simp] theorem Answer.finishReceived_canceled (a : Answer) :
    a.canceled.state.finishReceived = a.state.finishReceived :=
  AnswerState.finishReceived_markReturnSent _

theorem Answer.isDone_canceled (a : Answer) : a.canceled.state.isDone = a.state.finishReceived := by
  rw [Bool.eq_iff_iff, AnswerState.isDone_iff]
  simp

/-- Whether a task has a message that waits for the way out. -/
def Task.waits (task : Task) : Bool :=
  match task.work.send? with
  | some (.waiting _) => true
  | _ => false

namespace Connection

open Books

/-! ## References -/

/-- The capabilities in an arena. -/
def capsIn (c : Connection) (r : ArenaId) : List Capability := (c.messages.arena r).caps.filterMap id

/-- The references to capabilities in the exports and in the arenas that something refers to: something of the
    connection, or a handle to a struct. -/
def references (c : Connection) (held : List ArenaId) : List Capability :=
  c.exports.held ++ (held ++ c.arenas).eraseDups.flatMap c.capsIn

/-- If one arena, or none, is no longer referred to, the capabilities in it go away unless somebody has a
    handle to a struct there. -/
theorem references_of_arenas {c c' : Connection} {gone : Option ArenaId} (exports : c'.exports = c.exports)
    (messages : c'.messages = c.messages) (was : ∀ r, gone = some r → r ∈ c.arenas)
    (arenas : ∀ r, r ∈ c'.arenas ↔ r ∈ c.arenas ∧ gone ≠ some r) (held : List ArenaId) :
    (c.references held).Perm
      (c'.references held ++ (gone.toList.filter (· ∉ held)).flatMap c.capsIn) := by
  have hcaps : c'.capsIn = c.capsIn := by
    unfold capsIn
    rw [messages]
  have hperm : (held ++ c.arenas).eraseDups.Perm
      ((held ++ c'.arenas).eraseDups ++ gone.toList.filter (· ∉ held)) := by
    refine (List.perm_ext_iff_of_nodup (List.nodup_eraseDups _) ?_).2 fun r => ?_
    · refine (List.nodup_eraseDups _).append ?_ fun r hr hr' => ?_
      · exact (by cases gone <;> simp : gone.toList.Nodup).filter _
      · obtain ⟨hgone, hnot⟩ := List.mem_filter.1 hr'
        rcases List.mem_append.1 (List.mem_eraseDups.1 hr) with hin | hin
        · exact absurd hin (by simpa using hnot)
        · exact ((arenas r).1 hin).2 (Option.mem_toList.1 hgone)
    · simp only [List.mem_append, List.mem_eraseDups, List.mem_filter, Option.mem_toList, arenas,
        decide_eq_true_eq]
      have hwas := was r
      tauto
  unfold references
  rw [hcaps, exports, List.append_assoc, ← List.flatMap_append]
  exact (hperm.flatMap_right _).append_left _

theorem openMessages_eq (c : Connection) : c.openMessages =
    c.answers.values.countP (fun a => a.message.isSome) + c.tasks.values.countP Task.waits := by
  unfold openMessages
  rw [List.length_filterMap_eq_countP, ← List.countP_eq_length_filter]
  rfl

/-! ## What giving up comes to -/

/-- The executor gives up on a call before its completion begins: a handle that stands alone is dropped, or
    the task that was to complete the call is. -/
inductive Abandons (c : Connection) (h : Handle) : Action → Prop
  | handle (held : c.holds h = true) : Abandons c h (.dropHandle h)
  | task {t : TaskId} {result : Except Error Unit} {guard : Option Token} {action : Action}
      (found : c.tasks.get? t = some ⟨.sendReturn h (.unbegun result), guard⟩) (drops : c.Drops t action) :
      Abandons c h action

/-- Nothing is gone but a handle, or a task that has no message on its way out. -/
structure Sheds (c d : Connection) : Prop where
  answers : d.answers = c.answers
  exports : d.exports = c.exports
  messages : d.messages = c.messages
  transport : d.transport = c.transport
  history : d.history = c.history
  outgoing : ∀ t, d.outgoing t = c.outgoing t
  waiting : d.tasks.values.countP Task.waits = c.tasks.values.countP Task.waits

theorem holds_of_abandons {c : Connection} {h : Handle} {action : Action} (habandons : c.Abandons h action) :
    ∃ p, c.books.Holds p h .building := by
  cases habandons with
  | handle held => exact ⟨.executor, holds_executor held⟩
  | @task t result guard _ found drops => exact ⟨.task t, taskOwes_of_get? (b := c.books) found⟩

theorem sheds_of_abandons {c : Connection} {h : Handle} {action : Action}
    (habandons : c.Abandons h action) : ∃ d, (c.step action).2 = d.cancelReturn h.id ∧ c.Sheds d := by
  cases habandons with
  | handle held =>
      refine ⟨{ c with handles := c.handles.erase h.call }, ?_, rfl, rfl, rfl, rfl, rfl, fun _ => rfl, rfl⟩
      simp [step, held]
  | @task t result guard _ found drops =>
      have hdrop : c.dropTask t = (({ c with tasks := c.tasks.erase t }).freeSender t).cancelReturn h.id := by
        unfold dropTask
        rw [found]
      refine ⟨({ c with tasks := c.tasks.erase t }).freeSender t, (step_of_drops found drops).trans hdrop, ?_⟩
      obtain ⟨sender, hfree⟩ : ∃ sender, ({ c with tasks := c.tasks.erase t }).freeSender t =
          { c with tasks := c.tasks.erase t, sender := sender } := by
        unfold freeSender
        split <;> exact ⟨_, rfl⟩
      have hidle : Task.waits ⟨.sendReturn h (.unbegun result), guard⟩ = false := rfl
      rw [hfree]
      refine ⟨rfl, rfl, rfl, rfl, rfl, fun u => ?_, ?_⟩
      · refine (outgoing_of_erase (c := c) rfl u).trans ?_
        split
        · next hu =>
            rw [hu, outgoing_of_get? found]
            rfl
        · rfl
      · simpa [hidle] using Table.countP_of_replaced found (Or.inr rfl) hidle

/-- What giving up on a call changes: its record, and what is reported. -/
structure Quits (c : Connection) (id : AnswerId) (a : Answer) (c' : Connection) : Prop where
  replaced : c'.answers = c.answers.insert id a.canceled ∨ c'.answers = c.answers.erase id
  record : c'.answers.get? id = if a.state.finishReceived then none else some a.canceled
  history : c'.history =
    (if a.state.finishReceived then [] else [.reported (.droppedUnreturned id)]) ++ c.history
  exports : c'.exports = c.exports
  messages : c'.messages = c.messages
  transport : c'.transport = c.transport
  outgoing : ∀ t, c'.outgoing t = c.outgoing t
  waiting : c'.tasks.values.countP Task.waits = c.tasks.values.countP Task.waits

theorem quits_of_abandons {c : Connection} {h : Handle} {action : Action} (habandons : c.Abandons h action)
    {a : Answer} (ha : c.answers.get? h.id = some a) : c.Quits h.id a (c.step action).2 := by
  obtain ⟨d, hstep, hsheds⟩ := sheds_of_abandons habandons
  have had : d.answers.get? h.id = some a := by rw [hsheds.answers, ha]
  obtain ⟨hs, heq⟩ := d.cancelReturn_shape had
  have hdoes := (works_cancelReturn h.id).performs d
  have hgiving : givingUp h.id (some a) =
      { record := if a.state.finishReceived then none else some a.canceled
        events := fun _ => if a.state.finishReceived then [] else [.reported (.droppedUnreturned h.id)] } := by
    rw [← a.isDone_canceled]
    rfl
  rw [had, hgiving] at hdoes
  rw [hstep]
  constructor
  case replaced =>
    rw [heq, ← hsheds.answers]
    exact answers_putAnswer _ _ _
  case record => rw [hdoes.answers, if_pos rfl]
  case history => rw [hdoes.history, hsheds.history]
  case exports =>
    rw [hdoes.exports, hsheds.exports]
    rfl
  case messages => rw [heq, ← hsheds.messages]; rfl
  case transport => rw [heq, ← hsheds.transport]; rfl
  case outgoing =>
    intro t
    rw [heq, ← hsheds.outgoing t]
    rfl
  case waiting => rw [heq, ← hsheds.waiting]; rfl

theorem deeds_of_abandons {c : Connection} {h : Handle} {action : Action}
    (habandons : c.Abandons h action) : deeds h c action = [.giveUp] := by
  cases habandons with
  | handle held => simp [deeds, held]
  | @task t result guard _ found drops =>
      cases action with
      | dropTask u =>
          obtain rfl : u = t := drops
          simp [deeds, found, Work.completion?]
      | poll u =>
          obtain ⟨rfl, task, found', hcancel⟩ := drops
          obtain rfl := Option.some.inj (found.symm.trans found')
          simp only at hcancel
          simp [deeds, found, Work.completion?, hcancel]
      | _ => exact drops.elim

/-! ## What is left -/

/-- A record that leaves the table is gone for good. -/
theorem forgets_of_left {c : Connection} (hc : Reachable c) {id : AnswerId} {a : Answer}
    (ha : c.answers.get? id = some a) {action : Action}
    (hleft : (c.step action).2.answers.get? id = none) (more : List Action) :
    (c.after (action :: more)).Forgets a.call := by
  have hgone : (c.after [action]).Forgets a.call := by
    intro j b hb hcall
    obtain ⟨rfl, -⟩ := keptBy_after hc [action] ha hb hcall
    exact absurd (hleft.symm.trans hb) (by simp)
  exact forgets_append hc (hc.call_lt ha) [action] more hgone

/-- A record whose return was sent stays until the finish comes. -/
theorem stays_iff_of_sent {c : Connection} (hc : Reachable c) {id : AnswerId} {a : Answer}
    (ha : c.answers.get? id = some a) (hsent : a.state.returnSent = true)
    (hopen : a.state.finishReceived = false) (more : List Action) :
    (∃ b, (c.after more).answers.get? id = some b ∧ b.call = a.call) ↔
      ∀ releaseCaps, .finish id releaseCaps ∉ more := by
  induction more generalizing c a with
  | nil => simp [ha]
  | cons action rest ih =>
      have hleaves := get?_eq_none_iff hc ha action
      simp only [hsent, hopen, true_and, Bool.false_eq_true, false_and, or_false] at hleaves
      cases hnext : (c.step action).2.answers.get? id with
      | none =>
          obtain ⟨releaseCaps, rfl⟩ := hleaves.1 hnext
          refine iff_of_false ?_ fun hnone => hnone releaseCaps List.mem_cons_self
          rintro ⟨b, hb, hcall⟩
          exact forgets_of_left hc ha hnext rest id b hb hcall
      | some b =>
          obtain ⟨hcall, hsent', hfinish, -⟩ := flags_step hc action ha hnext
          have hidle : ¬ action.IsFinish id := fun h => absurd ((hleaves.2 h).symm.trans hnext) (by simp)
          have hopen' : b.state.finishReceived = false := by
            rw [← Bool.not_eq_true, hfinish, hopen]
            simp [hidle]
          have hrest := ih (.step action hc) hnext (hsent'.2 (Or.inl hsent)) hopen'
          rw [after_cons, ← hcall, hrest]
          refine forall_congr' fun releaseCaps => ?_
          rw [List.mem_cons, not_or]
          exact (and_iff_right fun h => hidle ⟨releaseCaps, h.symm⟩).symm

theorem Quits.others {c c' : Connection} {id : AnswerId} {a : Answer} (h : c.Quits id a c') {j : AnswerId}
    (hj : j ≠ id) : c'.answers.get? j = c.answers.get? j := by
  rcases h.replaced with heq | heq <;> rw [heq]
  · exact Table.get?_insert_of_ne _ hj a.canceled
  · exact Table.get?_erase_of_ne _ hj

/-- The record was the only one to refer to the arena of its return. -/
theorem Quits.arenas {c c' : Connection} (hc : Reachable c) {id : AnswerId} {a : Answer}
    (h : c.Quits id a c') (ha : c.answers.get? id = some a) (hunread : a.results = none) (r : ArenaId) :
    r ∈ c'.arenas ↔ r ∈ c.arenas ∧ a.message.map Envelope.arena ≠ some r := by
  have halone : a.message.map Envelope.arena = some r → c.Unshared id r := by
    intro hr
    obtain ⟨e, he, rfl⟩ := Option.map_eq_some_iff.1 hr
    exact hc.unshared ha he
  have hbare : a.canceled.message = none ∧ a.canceled.results = none := ⟨rfl, hunread⟩
  rw [mem_arenas_iff, mem_arenas_iff]
  constructor
  · rintro (⟨j, x, hx, hreads⟩ | ⟨t, x, hx, hr⟩ | ⟨e, he, hr⟩)
    · rcases Table.get?_of_replaced h.replaced hx with ⟨-, rfl⟩ | ⟨hj, hx⟩
      · simp [hbare] at hreads
      · refine ⟨Or.inl ⟨j, x, hx, hreads⟩, fun hmine => ?_⟩
        exact hreads.elim (fun h => hj ((halone hmine).records j x hx h)) ((halone hmine).results j x hx)
    · rw [h.outgoing] at hx
      exact ⟨Or.inr (Or.inl ⟨t, x, hx, hr⟩), fun hmine => (halone hmine).outgoing t x hx hr⟩
    · rw [h.transport] at he
      exact ⟨Or.inr (Or.inr ⟨e, he, hr⟩), fun hmine => (halone hmine).sent e he hr⟩
  · rintro ⟨⟨j, x, hx, hreads⟩ | ⟨t, x, hx, hr⟩ | ⟨e, he, hr⟩, hnot⟩
    · have hj : j ≠ id := by
        rintro rfl
        obtain rfl := Option.some.inj (ha.symm.trans hx)
        exact hreads.elim hnot fun hr => by simp [hunread] at hr
      exact Or.inl ⟨j, x, (h.others hj).trans hx, hreads⟩
    · exact Or.inr (Or.inl ⟨t, x, (h.outgoing t).trans hx, hr⟩)
    · exact Or.inr (Or.inr ⟨e, h.transport ▸ he, hr⟩)

/-- Whatever happens next, a pipelined call is told that the call was canceled. -/
theorem forward_of_abandons {c : Connection} (hc : Reachable c) {h : Handle} {action : Action}
    (habandons : c.Abandons h action) (more : List Action) {b : Answer}
    (hb : (c.after (action :: more)).answers.get? h.id = some b) (hcall : b.call = h.call)
    (call : PipelinedCall) : ((c.after (action :: more)).forward h.id call).1 = .error .callCanceled := by
  obtain ⟨p, hold⟩ := holds_of_abandons habandons
  obtain ⟨a, ha, hown, -⟩ := hc.custody.found_at hold
  obtain ⟨caller, draft, hrun⟩ := exists_running hc hold
  have hview := (view?_eq_some_iff _ h _).2 ⟨b, hb, hcall, rfl⟩
  obtain ⟨u, hu, hafter⟩ := view?_after hc (hown ▸ hc.call_lt ha) _ hview
  obtain rfl := Option.some.inj (hu.symm.trans hrun)
  have herror : (View.running caller draft).after .giveUp = .completed (.error .callCanceled) := rfl
  rw [along, deeds_of_abandons habandons, List.foldl_append, List.foldl_cons, List.foldl_nil, herror,
    View.foldl_error] at hafter
  rw [forward_of_view? (hc.after _) hview call, hafter]
  rfl

/-- No return is handed over for a call that was given up on. -/
theorem sends_of_abandons {c : Connection} (hc : Reachable c) {h : Handle} {action : Action}
    (habandons : c.Abandons h action) (more : List Action) :
    (c.after (action :: more)).sends h.call = [] := by
  cases habandons with
  | handle held =>
      refine sends_of_missed hc (holds_executor held) (closed_of_dropHandle hc held) ?_ more
      exact fun t task e hpoll => absurd hpoll (by simp)
  | @task t result guard _ found drops =>
      refine sends_of_dropped hc found ?_ more
      cases action with
      | dropTask u => exact Or.inl (congrArg _ drops)
      | poll u =>
          obtain ⟨rfl, task, found', hcancel⟩ := drops
          obtain rfl := Option.some.inj (found.symm.trans found')
          exact Or.inr ⟨rfl, hcancel⟩
      | _ => exact drops.elim

/-- What giving up on a call leaves, given its record. -/
structure GivenUp (c : Connection) (action : Action) (h : Handle) (a : Answer) : Prop where
  found : c.answers.get? h.id = some a
  own : a.call = h.call
  /-- The call was running. -/
  building : a.state.resultsReady = false ∧ a.state.returnSent = false
  /-- The record leaves if the peer's finish is in. Otherwise it says that the call was canceled and that the
      return was sent. -/
  record : (c.step action).2.answers.get? h.id =
    if a.state.finishReceived then none else some a.canceled
  marked : a.canceled.state.resultsReady = true ∧ a.canceled.state.returnSent = true ∧
    a.canceled.state.finishReceived = a.state.finishReceived ∧ a.canceled.error = some .callCanceled ∧
    a.canceled.message = none ∧ a.canceled.caller = none
  others : ∀ j, j ≠ h.id → (c.step action).2.answers.get? j = c.answers.get? j
  /-- Nothing is called out to, but for a report if the peer still waits for the return. -/
  history : (c.step action).2.history =
    (if a.state.finishReceived then [] else [.reported (.droppedUnreturned h.id)]) ++ c.history
  transport : (c.step action).2.transport = c.transport
  /-- No return is ever handed over for the call. -/
  silent : ∀ more, (c.after (action :: more)).sends h.call = []
  exports : (c.step action).2.exports = c.exports
  /-- The return that was reserved, if there was one, is discarded, and nothing refers to its arena any
      more. -/
  openMessages : (c.step action).2.openMessages + a.message.isSome.toNat = c.openMessages
  arenas : ∀ r, r ∈ (c.step action).2.arenas ↔ r ∈ c.arenas ∧ a.message.map Envelope.arena ≠ some r
  /-- So the capabilities in it go away, unless somebody has a handle to a struct there. -/
  references : ∀ held, (c.references held).Perm ((c.step action).2.references held ++
    ((a.message.map Envelope.arena).toList.filter (· ∉ held)).flatMap c.capsIn)
  /-- The receiver of pipelined calls is given up. -/
  callers : ∀ name, (c.step action).2.answers.values.countP (·.caller = some name) +
    (decide (a.caller = some name)).toNat = c.answers.values.countP (·.caller = some name)
  /-- As long as the record stays, a pipelined call is told that the call was canceled. -/
  forwards : ∀ more b call, (c.after (action :: more)).answers.get? h.id = some b → b.call = h.call →
    ((c.after (action :: more)).forward h.id call).1 = .error .callCanceled
  /-- It stays until the finish comes. -/
  stays : ∀ more, (∃ b, (c.after (action :: more)).answers.get? h.id = some b ∧ b.call = h.call) ↔
    a.state.finishReceived = false ∧ ∀ releaseCaps, .finish h.id releaseCaps ∉ more

/-- On every connection that can come about, giving up on a call leaves just that. -/
theorem Reachable.givenUp {c : Connection} (hc : Reachable c) {h : Handle} {action : Action}
    (habandons : c.Abandons h action) : ∃ a, c.GivenUp action h a := by
  obtain ⟨p, hold⟩ := holds_of_abandons habandons
  obtain ⟨a, ha, hcall, hunsent, hopen⟩ := hc.custody.found_at hold
  have hquits := quits_of_abandons habandons ha
  have harenas := hquits.arenas hc ha ((hc.coherent_record ha).of_open hopen).2.1
  refine ⟨a, ?_⟩
  constructor
  case found => exact ha
  case own => exact hcall
  case building => exact ⟨hopen, hunsent⟩
  case record => exact hquits.record
  case marked => exact ⟨rfl, by simp, by simp, rfl, rfl, rfl⟩
  case others => exact fun j hj => hquits.others hj
  case history => exact hquits.history
  case transport => exact hquits.transport
  case silent => exact sends_of_abandons hc habandons
  case exports => exact hquits.exports
  case openMessages =>
    have hcount := Table.countP_of_replaced ha hquits.replaced (p := fun a => a.message.isSome) rfl
    rw [openMessages_eq, openMessages_eq, hquits.waiting, Nat.add_right_comm, hcount]
    rfl
  case arenas => exact harenas
  case references =>
    refine references_of_arenas hquits.exports hquits.messages (fun r hr => ?_) harenas
    exact (c.mem_arenas_iff r).2 (Or.inl ⟨h.id, a, ha, Or.inl hr⟩)
  case callers =>
    intro name
    have hnone : a.canceled.caller = none := rfl
    exact Table.countP_of_replaced ha hquits.replaced (decide_eq_false (by simp [hnone]))
  case forwards => exact fun more b call hb hown => forward_of_abandons hc habandons more hb hown call
  case stays =>
    intro more
    have hrecord := hquits.record
    rw [← hcall]
    cases hfinish : a.state.finishReceived with
    | true =>
        rw [hfinish, if_pos rfl] at hrecord
        exact iff_of_false (fun ⟨b, hb, hown⟩ => forgets_of_left hc ha hrecord more h.id b hb hown) (by simp)
    | false =>
        rw [hfinish, if_neg (by simp)] at hrecord
        have hstays := stays_iff_of_sent (.step action hc) hrecord (by simp) (by simp [hfinish]) more
        exact hstays.trans (and_iff_right rfl).symm

/-- A run after which two calls are still being worked on: the first one has a capability as its results and a
    receiver; the second one has a struct with a capability, a task that is to complete it, and the peer's
    finish. -/
def halfBuiltRun : List Action :=
  [.newCaller "receiver" .hold, .newAnswer 1 "first", .newAnswer 2 "second", .setBootstrap ⟨1, 0⟩ ⟨"door", 5⟩,
    .setPipeline 1 "receiver", .allocateResults ⟨2, 1⟩ ⟨0, 1⟩,
    .edit ⟨1, 0⟩ (.setCapability 0 ⟨"window", 6⟩), .finish 2 false, .sendReturn ⟨2, 1⟩ (.ok ()) none]

theorem givenUp_after_building :
    let c := (initial {}).after halfBuiltRun
    let d := c.after [.dropHandle ⟨1, 0⟩, .dropTask 0]
    c.references [] = [⟨"window", 6⟩, ⟨"door", 5⟩] ∧ c.openMessages = 2 ∧
      d.references [] = [] ∧ d.references [1] = [⟨"window", 6⟩] ∧ d.openMessages = 0 ∧
      d.answers.contains 1 = true ∧ d.answers.contains 2 = false ∧
      c.Abandons ⟨1, 0⟩ (.dropHandle ⟨1, 0⟩) ∧ (∃ a, c.GivenUp (.dropHandle ⟨1, 0⟩) ⟨1, 0⟩ a) ∧
      c.Abandons ⟨2, 1⟩ (.dropTask 0) ∧ ∃ a, c.GivenUp (.dropTask 0) ⟨2, 1⟩ a :=
  have hc := (Reachable.initial {}).after halfBuiltRun
  have hhandle : ((initial {}).after halfBuiltRun).Abandons ⟨1, 0⟩ (.dropHandle ⟨1, 0⟩) :=
    .handle (by decide +kernel)
  have htask : ((initial {}).after halfBuiltRun).Abandons ⟨2, 1⟩ (.dropTask 0) := .task rfl rfl
  ⟨by decide +kernel, by decide +kernel, by decide +kernel, by decide +kernel, by decide +kernel,
    by decide +kernel, by decide +kernel, hhandle, hc.givenUp hhandle, htask, hc.givenUp htask⟩

end Connection

end Callee
