import Callee.Proofs.Breaking
import Callee.Proofs.Unsent

set_option autoImplicit false

/-! # Returns and the end of a connection

The transport learns of the end of a connection when it accepts the abort or is told to shut down, and
the connection is broken by then (`Reachable.isDown_of_ended`). A completion that begins on a broken
connection discards its return. One that had begun before may have its return waiting for the way out,
and nothing looks at the connection again when its turn comes: such a return still goes out, and no other
does (`Reachable.leavesQueue`).

It would be wrong to say that nothing goes out after the end: in `queuedRun` a return is handed over when
the abort was accepted and the transport shut down. -/

namespace Callee

/-- Whether an event tells the transport that the connection has come to its end. -/
def Event.isEnding : Event → Bool
  | .accepted none _ | .shutDown _ => true
  | _ => false

namespace Connection

open Books

/-- The transport has learned that the connection has come to its end. -/
def Ended (c : Connection) : Prop := ∃ e ∈ c.history, e.isEnding = true

instance (c : Connection) : Decidable c.Ended :=
  inferInstanceAs (Decidable (∃ e ∈ c.history, e.isEnding = true))

/-! ## Broken connections -/

/-- What is broken stays so. -/
theorem isDown_after {c : Connection} (hc : Reachable c) (hdown : c.isDown = true)
    (actions : List Action) : (c.after actions).isDown = true := by
  cases hafter : (c.after actions).isDown with
  | true => rfl
  | false =>
      have hup := up_of_after hc actions (((c.after actions).isDown_eq_false_iff).1 hafter)
      rw [(c.isDown_eq_false_iff).2 hup] at hdown
      exact absurd hdown (by simp)

/-! ## What tells the transport of the end -/

theorem ended_of_farewells {c c' : Connection} (h : c'.farewells = c.farewells) (hended : c'.Ended) :
    c.Ended := by
  have hfarewell : ∀ e : Event, e.isEnding = true → e.isFarewell = true := by
    intro e he
    cases e with
    | accepted call m => cases call <;> exact he
    | shutDown reason => rfl
    | _ => exact absurd he (by simp [Event.isEnding])
  obtain ⟨e, he, hending⟩ := hended
  have hin : e ∈ c'.farewells := List.mem_filter.2 ⟨he, hfarewell e hending⟩
  rw [h] at hin
  exact ⟨e, (List.mem_filter.1 hin).1, hending⟩

/-! ## Over a run -/

/-- Whatever has to do with the end of a connection comes when it is broken. -/
structure EndsDown (c : Connection) : Prop where
  ended : c.Ended → c.isDown = true
  work : ∀ t task, c.tasks.get? t = some task → task.work.isEnding = true → c.isDown = true

theorem Reachable.endsDown {c : Connection} (hc : Reachable c) : c.EndsDown := by
  induction hc with
  | initial options =>
      refine ⟨fun h => ?_, fun t task hget => absurd hget (by simp [Connection.initial])⟩
      obtain ⟨e, hin, -⟩ := h
      exact absurd hin (by simp [Connection.initial])
  | @step c action hprev ih =>
      have hstays : c.isDown = true → (c.step action).2.isDown = true := fun hdown =>
        isDown_after hprev hdown [action]
      cases c.parts action with
      | aloof farewells link tasks =>
          exact ⟨fun hended => hstays (ih.ended (ended_of_farewells farewells hended)),
            fun u task hget hending => hstays (ih.work u task (tasks u task hget hending) hending)⟩
      | @ends t task e stage left isPoll poll =>
          have hdown : (c.step action).2.isDown = true := by
            cases hbegun : stage.hasBegun with
            | true =>
                have hending : task.work.isEnding = true :=
                  (task.work.isEnding_iff).2 ⟨e, stage, ending_of_endsBy poll.goes hbegun, hbegun⟩
                exact hstays (ih.work t task poll.found hending)
            | false =>
                unfold isDown
                rw [isPoll, poll.link, hbegun]
                rfl
          exact ⟨fun _ => hdown, fun _ _ _ _ => hdown⟩

theorem Reachable.isDown_of_ended {c : Connection} (hc : Reachable c) (hended : c.Ended) :
    c.isDown = true :=
  hc.endsDown.ended hended

/-! ## What still goes out -/

/-- On a broken connection, what has a return on its way had it waiting before. -/
theorem queued_of_onItsWay {c : Connection} (hc : Reachable c) (hdown : c.isDown = true) {t : TaskId}
    {task : Task} {call : CallId} {e : Envelope} (hget : c.tasks.get? t = some task)
    (hway : c.onItsWay task.work = some (call, .waiting e)) : c.Queued call := by
  obtain ⟨work, guard⟩ := task
  rcases onItsWay_cases hway with ⟨h, f, rfl, hcall⟩ | ⟨h, result, d, rfl, rfl, -, -⟩
  · exact ⟨t, h, e, ⟨f, guard, hget⟩, hcall⟩
  · rcases onItsWay_of_unbegun hc hget with ⟨-, -, -, hsend⟩ | ⟨hnone, -⟩
    · exact absurd (hdown.symm.trans hsend.up) (by simp)
    · exact absurd (hnone.symm.trans hway) (by simp)

/-- Nothing joins what waits for the way out of a broken connection. -/
theorem queued_step {c : Connection} (hc : Reachable c) (hdown : c.isDown = true) {action : Action}
    {call : CallId} (hq : (c.step action).2.Queued call) : c.Queued call := by
  obtain ⟨t, h, e, ⟨f, guard, hget⟩, rfl⟩ := hq
  cases c.taskStep action hget with
  | kept before idle => exact ⟨t, h, e, ⟨f, guard, before⟩, rfl⟩
  | spawned number fresh => exact fresh.elim
  | @ran before work isPoll found live left task =>
      obtain rfl := (Task.mk.inj task).1
      obtain ⟨-, hway, -⟩ := waiting_of_run left
      exact queued_of_onItsWay hc hdown found hway

theorem queued_after {c : Connection} (hc : Reachable c) (hdown : c.isDown = true)
    (actions : List Action) {call : CallId} (hq : (c.after actions).Queued call) : c.Queued call := by
  induction actions generalizing c with
  | nil => exact hq
  | cons action rest ih =>
      have hstays : (c.step action).2.isDown = true := isDown_after hc hdown [action]
      exact queued_step hc hdown (ih (.step action hc) hstays hq)

/-- Nothing goes out for a call that has no return waiting when the connection is broken. -/
theorem sends_after_of_not_queued {c : Connection} (hc : Reachable c) (hdown : c.isDown = true)
    {call : CallId} (hnot : ¬ c.Queued call) (actions : List Action) :
    (c.after actions).sends call = c.sends call := by
  induction actions generalizing c with
  | nil => rfl
  | cons action rest ih =>
      have hstays : (c.step action).2.isDown = true := isDown_after hc hdown [action]
      have hnone : ∀ m, (call, m) ∉ c.handsOver action := by
        intro m hin
        obtain ⟨t, task, e, rfl, hget, -, hway, -, -⟩ := (c.mem_handsOver_iff _ _ _).1 hin
        exact hnot (queued_of_onItsWay hc hdown hget hway)
      rw [after_cons, ih (.step action hc) hstays fun hq => hnot (queued_step hc hdown hq),
        sends_step_of_not_mem hnone]

/-- A return that waits goes out when its turn comes, also on a broken connection. -/
theorem sends_of_queuedAt {c : Connection} (hc : Reachable c) {t : TaskId} {h : Handle} {e : Envelope}
    {f : Bool} {guard : Option Token}
    (hget : c.tasks.get? t = some ⟨.sendReturn h (.sending (.waiting e) f), guard⟩)
    (hlive : guard.any c.isCanceled = false) (hfree : c.sender = none) :
    (c.step (.poll t)).2.sends h.call = [c.messages.message e] := by
  have hin : (h.call, c.messages.message e) ∈ c.handsOver (.poll t) :=
    (c.mem_handsOver_iff _ _ _).2 ⟨t, _, e, rfl, hget, hlive, rfl, hfree, rfl⟩
  have hmem := (c.mem_sends_step_iff (.poll t) h.call _).2 (Or.inl hin)
  have hle := Reachable.length_sends_le (.step (.poll t) hc) h.call
  obtain ⟨m, hm⟩ := List.length_eq_one_iff.1 (Nat.le_antisymm hle (List.length_pos_of_mem hmem))
  rw [hm] at hmem
  rw [hm, List.mem_singleton.1 hmem]

/-! ## All connections -/

/-- What becomes of returns when a connection comes to its end. -/
structure LeavesQueue (c : Connection) : Prop where
  /-- When the transport learns of the end, the connection is broken, and it stays so. -/
  broken : c.Ended → ∀ actions, (c.after actions).isDown = true
  /-- On a broken connection a return goes out only if it waits for the way out. -/
  onlyQueued : c.isDown = true → ∀ actions call, (c.after actions).sends call ≠ c.sends call →
    c.Queued call
  /-- No return begins to wait there. -/
  noneJoin : c.isDown = true → ∀ actions call, (c.after actions).Queued call → c.Queued call
  /-- One that waits goes out when its task is polled and the way is free, broken or not. -/
  goesOut : ∀ t h e f guard,
    c.tasks.get? t = some ⟨.sendReturn h (.sending (.waiting e) f), guard⟩ →
    guard.any c.isCanceled = false → c.sender = none →
    (c.step (.poll t)).2.sends h.call = [c.messages.message e]

/-- On every connection that can come about, the end stops every return but those that wait for the way
    out. -/
theorem Reachable.leavesQueue {c : Connection} (hc : Reachable c) : c.LeavesQueue where
  broken hended actions := isDown_after hc (hc.isDown_of_ended hended) actions
  onlyQueued hdown actions _ hsent :=
    Classical.not_not.1 fun hnot => hsent (sends_after_of_not_queued hc hdown hnot actions)
  noneJoin hdown actions _ hq := queued_after hc hdown actions hq
  goesOut _ _ _ _ _ hget hlive hfree := sends_of_queuedAt hc hget hlive hfree

/-- A run in which one return is held up at a gate and another one waits behind it when the connection
    comes to its end. -/
def queuedRun : List Action :=
  [.newAnswer 1 "first", .newAnswer 2 "second", .gateSend, .sendReturn ⟨1, 0⟩ (.ok ()) none, .poll 0,
    .sendReturn ⟨2, 1⟩ (.ok ()) none, .poll 1, .disconnect (.external .failed "bye"), .poll 2,
    .openGate 0, .poll 0, .poll 2]

theorem leavesQueue_after_ending :
    ((initial {}).after queuedRun).Ended ∧ ((initial {}).after queuedRun).sends 1 = [] ∧
      ((initial {}).after queuedRun).LeavesQueue :=
  ⟨by decide +kernel, by decide +kernel, ((Reachable.initial {}).after queuedRun).leavesQueue⟩

/-- A return may go out although the transport has learned of the end. -/
theorem sends_after_ending :
    ¬ ∀ options before more call, ((initial options).after before).Ended →
      (((initial options).after before).after more).sends call =
        ((initial options).after before).sends call := by
  intro h
  have hended : ((initial {}).after queuedRun).Ended := by decide +kernel
  have hlate : (((initial {}).after queuedRun).after [.poll 1]).sends 1 ≠
      ((initial {}).after queuedRun).sends 1 := by decide +kernel
  exact hlate (h {} queuedRun [.poll 1] 1 hended)

end Connection

end Callee
