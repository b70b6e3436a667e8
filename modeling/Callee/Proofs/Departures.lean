import Callee.Proofs.Outcomes
import Callee.Proofs.Parting

set_option autoImplicit false

/-! # Where messages come from that go out

A message goes out by the poll of a task (`Connection.posts`). The task had it on its way before, or has just
begun what it was to begin, and then the message is the abort of the connection or the return of a call that
completes now (`posts_cases`). So what holds of aborts and of the returns that calls complete with holds of
all that is on its way and of all returns that were ever handed over (`Reachable.departure_induction`). -/

namespace Callee.Connection

/-- A call completes by an action, and its return goes on: `m` is put back in the place of `d`. -/
structure Departs (c : Connection) (action : Action) (d : Envelope) (result : Except Error Unit)
    (m : Message) : Prop where
  held : ∃ k a, c.answers.get? k.id = some a ∧ a.message = some d ∧ c.Sendable k result
  messages : (c.transfer action).messages = (c.messages.put d m).2
  seals : c.Seals (c.messages.message d) result m

theorem transfer_poll_of_live {c : Connection} {t : TaskId} {task : Task} (hget : c.tasks.get? t = some task)
    (hlive : task.guard.any c.isCanceled = false) : c.transfer (.poll t) = c.begun task.work := by
  simp [transfer, hget, hlive]

/-- Only a return that may go out goes on. -/
theorem sendable_of_beginReturn {c : Connection} (hc : Reachable c) {k : Handle} {result : Except Error Unit}
    {e : Envelope} (hbegun : (c.beginReturn k.id result).1.bind BegunReturn.envelope = some e) :
    c.Sendable k result := by
  obtain ⟨begun, hbegin, hsent⟩ := Option.bind_eq_some_iff.1 hbegun
  obtain ⟨a, d, m, ha, -⟩ := sealed_of_beginReturn hbegun
  rcases c.envelope_beginReturn ha (fun e => hc.addressed k.id a e ha) result (Prod.ext hbegin rfl) with
    ⟨e', -, -, hsendable⟩ | ⟨hnone, -⟩
  · exact hsendable
  · exact absurd (hnone.symm.trans hsent) (by simp)

theorem root_of_reserveAbort {c : Connection} {e : Error} {x : Envelope} (h : (c.reserveAbort e).1 = .ok x) :
    ∃ exc, x.root = some (.abort exc) := by
  unfold reserveAbort at h
  split at h
  · exact absurd h (by simp)
  · dsimp only at h
    split at h
    · exact absurd h (by simp)
    · next m hwrite =>
        obtain ⟨a, -, rfl⟩ := Message.writeAbort_eq_ok hwrite
        obtain rfl := Except.ok.inj h
        exact ⟨_, rfl⟩

theorem root_of_beginDisconnect {c : Connection} {e : Error} {x : Envelope}
    (h : (c.beginDisconnect e).1 = some (.ok x)) : ∃ exc, x.root = some (.abort exc) := by
  unfold beginDisconnect at h
  split at h
  · exact absurd h (by simp)
  · exact root_of_reserveAbort (Option.some.inj h)

/-- What a piece of work has on its way out it had there before, or it is a return or an abort that begins. -/
theorem offered_cases {c : Connection} {work : Work} {e : Envelope} (h : c.offered work = some e) :
    (∃ x, work.outgoing? = some x ∧ x.2.envelope = e) ∨
      (∃ k result, work = .sendReturn k (.unbegun result) ∧
        (c.beginReturn k.id result).1.bind BegunReturn.envelope = some e) ∨
      ∃ exc, e.root = some (.abort exc) := by
  obtain ⟨x, hx, rfl⟩ := Option.map_eq_some_iff.1 h
  cases hwork : work with
  | sendReturn k stage =>
      rw [hwork] at hx
      obtain ⟨⟨call, send⟩, hway, rfl⟩ := Option.map_eq_some_iff.1 hx
      rcases onItsWay_cases hway with ⟨k', f, hstage, rfl⟩ | ⟨k', result, d, hstage, rfl, rfl, hbegun⟩
      · rw [hstage]
        exact Or.inl ⟨_, rfl, rfl⟩
      · rw [hstage]
        exact Or.inr (Or.inl ⟨k', result, rfl, hbegun⟩)
  | accept stage | disconnect err stage =>
      rw [← hwork]
      obtain ⟨⟨err', stage'⟩, hgoes, habort⟩ : ∃ p, c.endsBy work = some p ∧
          ((c.beforeEnd work).abortOf p.1 p.2).map (none, ·) = some x := by
        rw [hwork] at hx ⊢
        exact Option.bind_eq_some_iff.1 hx
      obtain ⟨send, hsend, rfl⟩ := Option.map_eq_some_iff.1 habort
      -- the abort has begun before, or it begins now
      cases stage' with
      | shuttingDown gate => exact absurd hsend (by simp [abortOf, DisconnectStage.send?])
      | aborting send' =>
          obtain rfl := Option.some.inj hsend
          exact Or.inl ⟨_, outgoing?_of_ending (ending_of_endsBy hgoes rfl), rfl⟩
      | unbegun =>
          obtain ⟨d, hd, rfl⟩ := Option.map_eq_some_iff.1 hsend
          obtain ⟨r, hr, hrd⟩ := Option.bind_eq_some_iff.1 hd
          obtain rfl : r = .ok d := eq_ok_of_toOption hrd
          exact Or.inr (Or.inr (root_of_beginDisconnect hr))

/-- What is accepted or goes on its way was on its way before, or it is a return or an abort that begins. -/
theorem posts_cases {c : Connection} (hc : Reachable c) {action : Action} {e : Envelope}
    (h : c.posts action = some e) :
    (∃ t x, c.outgoing t = some x ∧ x.2.envelope = e) ∨
      (∃ d result m, c.Departs action d result m ∧ e = (c.messages.put d m).1) ∨
      ∃ exc, e.root = some (.abort exc) := by
  unfold posts at h
  split at h
  · next t =>
      split at h
      · next task hget =>
          split at h
          · exact absurd h (by simp)
          · next hlive =>
              rcases offered_cases h with ⟨x, hx, rfl⟩ | ⟨k, result, hwork, hbegun⟩ | habort
              · exact Or.inl ⟨t, x, (outgoing_of_get? hget).trans hx, rfl⟩
              · obtain ⟨work, guard⟩ := task
                obtain rfl : work = .sendReturn k (.unbegun result) := hwork
                have htransfer := transfer_poll_of_live hget (by simpa using hlive)
                obtain ⟨a, d, m, ha, hmsg, rfl, hmessages, hseals⟩ := sealed_of_beginReturn hbegun
                have hdeparts : c.Departs (.poll t) d result m := {
                  held := ⟨k, a, ha, hmsg, sendable_of_beginReturn hc hbegun⟩
                  messages := (congrArg Connection.messages htransfer).trans hmessages
                  seals := hseals }
                exact Or.inr (Or.inl ⟨d, result, m, hdeparts, rfl⟩)
              · exact Or.inr (Or.inr habort)
      · exact absurd h (by simp)
  · exact absurd h (by simp)

/-- A return is handed over by an action that also may have it accepted. -/
theorem posts_of_handsOver {c : Connection} {action : Action} {call : CallId} {m : Message}
    (h : (call, m) ∈ c.handsOver action) : ∃ e, c.posts action = some e ∧ m.root = e.root := by
  obtain ⟨t, ⟨work, guard⟩, e, rfl, hget, hlive, hway, -, rfl⟩ := (c.mem_handsOver_iff _ _ _).1 h
  refine ⟨e, ?_, rfl⟩
  rw [posts_of_live hget hlive]
  obtain ⟨k, s, howes, -⟩ := owes_of_onItsWay hway
  obtain ⟨stage, rfl, -⟩ := stage_of_owes howes
  exact congrArg (Option.map _) (congrArg (Option.map _) hway)

/-- What holds of every abort and of every return that a call completes with holds of what is on its way and
    of the returns that were handed over. -/
theorem Reachable.departure_induction {P : Option Root → Prop} (aborts : ∀ exc, P (some (.abort exc)))
    (returns : ∀ {c : Connection} {action : Action} {d : Envelope} {result : Except Error Unit} {m : Message},
      Reachable c → c.Departs action d result m → P m.root)
    {c : Connection} (hc : Reachable c) :
    (∀ t x, c.outgoing t = some x → P x.2.envelope.root) ∧
      ∀ call m, (call, m) ∈ c.handedReturns → P m.root := by
  induction hc with
  | initial options => exact ⟨fun t x h => absurd h (by simp [outgoing, Connection.initial]),
      fun call m h => absurd h (by simp [handedReturns, Connection.initial])⟩
  | @step c action hprev ih =>
      have hposted : ∀ e, c.posts action = some e → P e.root := by
        intro e he
        rcases posts_cases hprev he with ⟨t, x, hx, rfl⟩ | ⟨d, result, m, hdeparts, rfl⟩ | ⟨exc, hroot⟩
        · exact ih.1 t x hx
        · exact returns hprev hdeparts
        · rw [hroot]
          exact aborts exc
      constructor
      · intro t x hx
        rcases outgoing_step hprev action hx with hbefore | hnew
        · exact ih.1 t x hbefore
        · exact hposted _ hnew
      · intro call m hin
        rw [handedReturns_step] at hin
        rcases List.mem_append.1 hin with hnow | hbefore
        · obtain ⟨e, he, hroot⟩ := posts_of_handsOver hnow
          rw [hroot]
          exact hposted e he
        · exact ih.2 call m hbefore

end Callee.Connection
