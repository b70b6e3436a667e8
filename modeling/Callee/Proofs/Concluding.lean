import Callee.Proofs.Orderly

set_option autoImplicit false

/-! # Every call comes to its conclusion

Many calls may be under way on a connection at once, and their steps follow one another in any order. As
long as all that happens is in order, each call that was created either still owes its return or had it
accepted, and a finish is remembered by the record of its call (`Accounts`). So when every call was
completed, every completion is over and every call had its finish, no answer is left, the transport has
accepted one return for each call, and nothing was reported (`concluded_after`). -/

namespace Callee.Connection

open Books

/-! ## Accounts -/

/-- What is known of the calls that were created, and of those whose finish was received. -/
structure Accounts (c : Connection) (made done : List Handle) : Prop where
  faultless : c.Faultless
  /-- Calls are numbered in the order in which they come in. -/
  calls : made.map Handle.call = List.range c.nextCall
  /-- Each call had its return accepted, once, or still owes it. -/
  split : (c.returned ++ c.liveHandles).Perm made
  accepted : c.transport.accepted = c.returned.length
  recorded : ∀ {id a}, c.answers.get? id = some a → ⟨id, a.call⟩ ∈ made
  done_lt : ∀ h ∈ done, h.call < c.nextCall
  finished : ∀ {id a}, c.answers.get? id = some a → ⟨id, a.call⟩ ∈ done →
    a.state.finishReceived = true

theorem accounts_initial (options : Options) : (initial options).Accounts [] [] where
  faultless := ⟨rfl, ⟨rfl, rfl, rfl⟩, fun _ => rfl, fun h => absurd h (by simp [initial]), by simp [initial]⟩
  calls := rfl
  split := .refl _
  accepted := rfl
  recorded h := absurd h (by simp [initial])
  done_lt := by simp
  finished h := absurd h (by simp [initial])

/-! ## Handles over a step -/

theorem mem_liveHandles_of_status {c : Connection} (hc : Reachable c) {id : AnswerId} {call : CallId}
    {st : AnswerState} (found : c.books.status id = some (call, st)) (unsent : st.returnSent = false) :
    ⟨id, call⟩ ∈ c.liveHandles :=
  (c.mem_liveHandles_iff _).2 (hc.custody.held found unsent)

theorem call_lt_of_live {c : Connection} (hc : Reachable c) {h : Handle} (hlive : h ∈ c.liveHandles) :
    h.call < c.nextCall := by
  obtain ⟨p, s, hold⟩ := (c.mem_liveHandles_iff h).1 hlive
  obtain ⟨st, found, -⟩ := hc.custody.found hold
  exact hc.custody.call_lt found

/-- A record that is new belongs to a call that was just created. -/
theorem mem_creates_of_new {c : Connection} (hc : Reachable c) {action : Action} {sent : Option Handle}
    (hgoes : c.GoesOn action sent) {id : AnswerId} {b : Answer}
    (hb : (c.step action).2.answers.get? id = some b) (hcall : b.call = c.nextCall) :
    ⟨id, b.call⟩ ∈ c.creates action := by
  have hlt := (Reachable.step action hc).call_lt hb
  rw [hgoes.proceeds.calls, hcall] at hlt
  obtain ⟨h, hh⟩ := List.exists_mem_of_length_pos (Nat.pos_of_lt_add_left hlt)
  obtain ⟨hcall', a, ha, hown⟩ := hgoes.recorded h hh
  obtain ⟨hid, -⟩ := (Reachable.step action hc).record_unique hb ha (hown.trans (hcall'.trans hcall.symm))
  have heq : (⟨id, b.call⟩ : Handle) = h := by
    rw [← hid, hcall, ← hcall']
  exact heq ▸ hh

/-- A handle owes its return after a step only if it did before, or its call was just created. -/
theorem live_of_step {c : Connection} (hc : Reachable c) {action : Action} {sent : Option Handle}
    (hgoes : c.GoesOn action sent) {h : Handle} (hlive : h ∈ (c.step action).2.liveHandles) :
    h ∈ c.creates action ∨ h ∈ c.liveHandles := by
  obtain ⟨p, s, hold⟩ := (mem_liveHandles_iff _ h).1 hlive
  obtain ⟨b, hb, hcall, fits⟩ := (Reachable.step action hc).custody.found_at hold
  have hunsent : b.state.returnSent = false := fits.unsent
  rcases (hc.lifeStep action).before hc.custody (status_of_get? hb) with ⟨hnew, -⟩ | ⟨st, found, hkept⟩
  · refine Or.inl ?_
    have hin := mem_creates_of_new hc hgoes hb hnew
    rwa [hcall] at hin
  · refine Or.inr ?_
    have hbefore : st.returnSent = false := by
      cases hst : st.returnSent with
      | false => rfl
      | true => exact absurd ((hkept.returnSent hst).symm.trans hunsent) (by simp)
    have hin := mem_liveHandles_of_status hc found hbefore
    rwa [hcall] at hin

/-- The call that a step creates owes its return. -/
theorem live_of_created {c : Connection} (hc : Reachable c) {action : Action} {sent : Option Handle}
    (hgoes : c.GoesOn action sent) {h : Handle} (hh : h ∈ c.creates action) :
    h ∈ (c.step action).2.liveHandles := by
  obtain ⟨hcall, a, ha, hown⟩ := hgoes.recorded h hh
  have found := status_of_get? (b := (c.step action).2.books) ha
  have hopen : a.state.returnSent = false := by
    rcases (hc.lifeStep action).before hc.custody found with ⟨-, hnew⟩ | ⟨st, hst, -⟩
    · rw [hnew]
      rfl
    · exact absurd (hc.custody.call_lt hst) (by rw [hown, hcall]; exact Nat.lt_irrefl _)
  have hin := mem_liveHandles_of_status (.step action hc) found hopen
  rwa [hown] at hin

theorem nodup_toList_append {α : Type} {o : Option α} {l : List α} (hl : l.Nodup)
    (h : ∀ x, o = some x → x ∉ l) : (o.toList ++ l).Nodup := by
  cases o with
  | none => exact hl
  | some x => exact List.nodup_cons.2 ⟨h x rfl, hl⟩

/-- The handles that owe a return after a step, together with the one that it settles, are those that did
    before, together with the one that it creates. -/
theorem liveHandles_step {c : Connection} (hc : Reachable c) {action : Action} {sent : Option Handle}
    (hgoes : c.GoesOn action sent) :
    (sent.toList ++ (c.step action).2.liveHandles).Perm (c.creates action ++ c.liveHandles) := by
  have hafter := nodup_liveHandles (Reachable.step action hc).custody
  have hbefore := nodup_liveHandles hc.custody
  refine (List.perm_ext_iff_of_nodup ?_ ?_).2 fun h => ?_
  · exact nodup_toList_append hafter fun h hsent => ((hgoes.settles h).1 hsent).2
  · refine nodup_toList_append hbefore fun h hnew hlive => ?_
    have hcall := (hgoes.recorded h (Option.mem_toList.2 hnew)).1
    exact absurd (call_lt_of_live hc hlive) (hcall ▸ Nat.lt_irrefl _)
  · rw [List.mem_append, List.mem_append, Option.mem_toList, hgoes.settles]
    constructor
    · rintro (hsettles | hlive)
      · exact Or.inr hsettles.1
      · exact live_of_step hc hgoes hlive
    · rintro (hnew | hlive)
      · exact Or.inr (live_of_created hc hgoes hnew)
      · by_cases hstay : h ∈ (c.step action).2.liveHandles
        · exact Or.inr hstay
        · exact Or.inl ⟨hlive, hstay⟩

/-! ## Accounts over a step -/

theorem range_nextCall {c : Connection} {action : Action} {sent : Option Handle}
    (hgoes : c.GoesOn action sent) : List.range (c.step action).2.nextCall =
      List.range c.nextCall ++ (c.creates action).map Handle.call := by
  have hcalls := hgoes.proceeds.calls
  have hrecorded := hgoes.recorded
  unfold creates at hcalls hrecorded ⊢
  cases hcreated : (c.step action).1.created? with
  | none =>
      rw [hcreated] at hcalls
      rw [hcalls]
      simp
  | some h =>
      rw [hcreated] at hcalls hrecorded
      have hsucc : (c.step action).2.nextCall = c.nextCall + 1 := hcalls.trans (Nat.add_comm 1 _)
      rw [hsucc, List.range_succ, ← (hrecorded h (by simp)).1]
      rfl

theorem mem_finishes_iff (c : Connection) (action : Action) (h : Handle) : h ∈ c.finishes action ↔
    action.IsFinish h.id ∧ ∃ a, c.answers.get? h.id = some a ∧ a.call = h.call := by
  cases action with
  | finish id releaseCaps =>
      obtain ⟨hid, hcall⟩ := h
      simp only [finishes, Option.mem_toList, Option.map_eq_some_iff, Action.IsFinish, Action.finish.injEq,
        Handle.mk.injEq]
      constructor
      · rintro ⟨a, ha, rfl, rfl⟩
        exact ⟨⟨releaseCaps, rfl, rfl⟩, a, ha, rfl⟩
      · rintro ⟨⟨r, rfl, rfl⟩, a, ha, rfl⟩
        exact ⟨a, ha, rfl, rfl⟩
  | _ => simp [finishes, Action.IsFinish]

theorem Accounts.step {c : Connection} (hc : Reachable c) {made done : List Handle}
    (h : c.Accounts made done) {action : Action} (ho : c.isOrderly action = true) :
    (c.step action).2.Accounts (made ++ c.creates action) (done ++ c.finishes action) := by
  obtain ⟨sent, hgoes⟩ := goesOn hc h.faultless ho
  have hproceeds := hgoes.proceeds
  have hdone : ∀ k ∈ done ++ c.finishes action, k.call < c.nextCall := by
    intro k hk
    rcases List.mem_append.1 hk with hk | hk
    · exact h.done_lt k hk
    · obtain ⟨-, a, ha, hcall⟩ := (c.mem_finishes_iff action k).1 hk
      exact hcall ▸ hc.call_lt ha
  refine ⟨hproceeds.faultless, ?_, ?_, ?_, ?_, ?_, ?_⟩
  · rw [range_nextCall hgoes, List.map_append, h.calls]
  · rw [hproceeds.returned]
    calc List.Perm ((sent.toList ++ c.returned) ++ (c.step action).2.liveHandles)
          (c.returned ++ (sent.toList ++ (c.step action).2.liveHandles)) := by
          rw [List.append_assoc]
          exact List.perm_append_comm_assoc _ _ _
      List.Perm _ (c.returned ++ (c.creates action ++ c.liveHandles)) :=
          (liveHandles_step hc hgoes).append_left _
      List.Perm _ (c.creates action ++ (c.returned ++ c.liveHandles)) :=
          List.perm_append_comm_assoc _ _ _
      List.Perm _ (c.creates action ++ made) := h.split.append_left _
      List.Perm _ (made ++ c.creates action) := List.perm_append_comm
  · rw [hproceeds.accepted, hproceeds.returned, List.length_append, h.accepted]
  · intro id b hb
    rcases (hc.lifeStep action).before hc.custody (status_of_get? hb) with ⟨hnew, -⟩ | ⟨st, found, -⟩
    · exact List.mem_append_right _ (mem_creates_of_new hc hgoes hb hnew)
    · obtain ⟨a, ha, hcall, -⟩ := (status_eq_some_iff _ _ _ _).1 found
      exact List.mem_append_left _ (hcall ▸ h.recorded ha)
  · exact fun k hk => Nat.lt_of_lt_of_le (hdone k hk) (hc.lifeStep action).nextCall_le
  · intro id b hb hk
    rcases (hc.lifeStep action).before hc.custody (status_of_get? hb) with ⟨hnew, -⟩ | ⟨st, found, -⟩
    · exact absurd (hdone _ hk) (hnew ▸ Nat.lt_irrefl _)
    · obtain ⟨a, ha, hcall, -⟩ := (status_eq_some_iff _ _ _ _).1 found
      refine (flags_step hc action ha hb).2.2.1.2 ?_
      rcases List.mem_append.1 hk with hk | hk
      · exact Or.inl (h.finished ha (hcall ▸ hk))
      · exact Or.inr ((c.mem_finishes_iff action _).1 hk).1

/-! ## All runs -/

theorem Accounts.after {c : Connection} (hc : Reachable c) {made done : List Handle}
    (h : c.Accounts made done) (actions : List Action) (ho : c.runsInOrder actions = true) :
    (c.after actions).Accounts (made ++ along creates c actions) (done ++ along finishes c actions) := by
  induction actions generalizing c made done with
  | nil => simpa [along] using h
  | cons action rest ih =>
      obtain ⟨hfirst, hrest⟩ := Bool.and_eq_true_iff.1 ho
      have hafter := ih (.step action hc) (h.step hc hfirst) hrest
      simpa [along, List.append_assoc] using hafter

/-- A run that is in order, and after which nothing is left to do for the calls that it created. -/
structure Concludes (options : Options) (actions : List Action) : Prop where
  inOrder : (initial options).runsInOrder actions = true
  /-- Every call that was created had one finish. -/
  finished : (along finishes (initial options) actions).Perm (along creates (initial options) actions)
  /-- Every handle was used up, -/
  handles : ((initial options).after actions).handles.size = 0
  /-- and every task is over. -/
  tasks : ((initial options).after actions).tasks.size = 0

/-- What is left of the calls that were created when all of them were completed and finished. -/
structure Concluded (c : Connection) (made : List Handle) : Prop where
  answers : c.answers.size = 0
  distinct : made.Nodup
  /-- The transport accepted one return for each call, under the id of the call, -/
  returned : c.returned.Perm made
  /-- and nothing else. -/
  accepted : c.transport.accepted = made.length
  unreported : ∀ e, Event.reported e ∉ c.history

theorem liveHandles_of_size {c : Connection} (hhandles : c.handles.size = 0) (htasks : c.tasks.size = 0) :
    c.liveHandles = [] := by
  unfold liveHandles
  rw [List.eq_nil_of_length_eq_zero hhandles, List.eq_nil_of_length_eq_zero htasks]
  rfl

/-- In whatever order the steps of the calls follow one another, all of them come to their conclusion. -/
theorem concluded_after {options : Options} {actions : List Action} (h : Concludes options actions) :
    Concluded ((initial options).after actions) (along creates (initial options) actions) := by
  have hc := (Reachable.initial options).after actions
  have haccounts : ((initial options).after actions).Accounts (along creates (initial options) actions)
      (along finishes (initial options) actions) :=
    (accounts_initial options).after (.initial options) actions h.inOrder
  have hlive := liveHandles_of_size h.handles h.tasks
  have hreturned := haccounts.split
  rw [hlive, List.append_nil] at hreturned
  constructor
  case answers =>
    refine (Table.size_eq_zero_iff _).2 fun id => Option.eq_none_iff_forall_ne_some.2 fun a ha => ?_
    have found := status_of_get? (b := ((initial options).after actions).books) ha
    -- a record that stands has both signals
    have hsent : a.state.returnSent = true := by
      cases hst : a.state.returnSent with
      | true => rfl
      | false =>
          have hin := mem_liveHandles_of_status hc found hst
          rw [hlive] at hin
          exact absurd hin (by simp)
    have hfinished := haccounts.finished ha (h.finished.mem_iff.2 (haccounts.recorded ha))
    have hdone := (a.state.isDone_iff).2 ⟨hsent, hfinished⟩
    exact absurd (hdone.symm.trans (hc.custody.not_done found)) (by simp)
  case distinct =>
    have hcalls := haccounts.calls ▸ List.nodup_range
    exact (List.pairwise_map.1 hcalls).imp fun hne heq => hne (congrArg Handle.call heq)
  case returned => exact hreturned
  case accepted => rw [haccounts.accepted, hreturned.length_eq]
  case unreported => exact haccounts.faultless.unreported

/-- A run in which two calls are under way at once. The return of the first is held up at a gate, and that
    of the second waits behind it; the second has its finish before its return, and waits for a receiver. -/
def interleavedRun : List Action :=
  [.accept 1 "first", .poll 0, .newAnswer 2 "second", .setBootstrap ⟨1, 0⟩ ⟨"object", 5⟩,
    .newCaller "receiver" .hold, .setPipeline 2 "receiver", .forward 2 ⟨3, 0, 0, []⟩, .gateSend,
    .sendReturn ⟨1, 0⟩ (.ok ()) none, .sendReturn ⟨2, 1⟩ (.error (.external .failed "no")) none, .poll 1,
    .poll 2, .finish 2 false, .openGate 0, .poll 1, .poll 2, .acknowledge "receiver" none, .poll 2,
    .finish 1 true]

theorem concluded_after_interleaving :
    Concludes {} interleavedRun ∧ along creates (initial {}) interleavedRun = [⟨1, 0⟩, ⟨2, 1⟩] ∧
      Concluded ((initial {}).after interleavedRun) (along creates (initial {}) interleavedRun) := by
  have h : Concludes {} interleavedRun :=
    ⟨by decide +kernel, by decide +kernel, by decide +kernel, by decide +kernel⟩
  exact ⟨h, by decide +kernel, concluded_after h⟩

end Callee.Connection
