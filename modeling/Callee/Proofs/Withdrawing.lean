import Callee.Proofs.Ending
import Callee.Proofs.GivingBack

set_option autoImplicit false

/-! # Exports and the end of a connection

A connection that breaks drops all its exports, and from then on it has none: a return that begins on it
hands out nothing, whatever its results are, and its record notes nothing (`Reachable.exportsNothing`).

What a record noted before the end it goes on noting, although nothing is exported under these ids any more.
So the peer's finish with release of such a record reports all of them as invalid. It reports nothing of the
kind anywhere else (`Reachable.reportsNoted`): on a connection that is up every id that is noted is in use. -/

namespace Callee

/-! ## Giving back what is not there -/

/-- Without exports every id that is given back is invalid. -/
theorem Exports.release_of_empty (ids : List ExportId) :
    Exports.release {} ids = { exports := {}, invalid := ids } := by
  have hall : ∀ (before : List ExportId), ids.foldl Exports.releaseOne { exports := {}, invalid := before } =
      { exports := {}, invalid := before ++ ids } := by
    induction ids with
    | nil => simp
    | cons id rest ih =>
        intro before
        rw [List.foldl_cons]
        show rest.foldl Exports.releaseOne { exports := {}, invalid := before ++ [id] } = _
        rw [ih, List.append_assoc]
        rfl
  exact hall []

namespace Connection

/-! ## Beginning a return on a broken connection -/

theorem returnResults_of_down {c : Connection} (hdown : c.isDown = true) (id : AnswerId) (a : Answer)
    (e : Envelope) : (c.returnResults id a e).2.exports = c.exports ∧
      (c.returnResults id a e).1.hosted = [] := by
  unfold returnResults
  simp only [reportAll_shape, hdown, if_true]
  exact ⟨rfl, rfl⟩

theorem returnError_of_down {c : Connection} (hdown : c.isDown = true) (id : AnswerId) (a : Answer)
    (e : Envelope) (x : Error) : (c.returnError id a e x).2.exports = c.exports ∧
      (c.returnError id a e x).1.hosted = [] := by
  unfold returnError
  dsimp only
  split
  · exact ⟨rfl, rfl⟩
  · refine ⟨rfl, ?_⟩
    show BegunReturn.hosted ⟨if c.isDown = true then none else some _, _⟩ = []
    rw [if_pos hdown]
    rfl

/-- A return that begins on a broken connection exports nothing and hands out nothing. -/
theorem beginReturn_of_down {c : Connection} (hdown : c.isDown = true) (id : AnswerId)
    (result : Except Error Unit) : (c.beginReturn id result).2.exports = c.exports ∧
      (c.beginReturn id result).1.elim [] BegunReturn.hosted = [] := by
  unfold beginReturn
  split
  · exact ⟨rfl, rfl⟩
  · dsimp only
    split
    · exact ⟨rfl, rfl⟩
    · exact returnResults_of_down hdown id _ _
    · exact returnError_of_down hdown id _ _ _

theorem handsOut_of_down {c : Connection} (hdown : c.isDown = true) (action : Action) :
    c.handsOut action = [] := by
  cases c.opening action with
  | nothing transfer out back => exact out
  | begins owes transfer out back =>
      rw [out, (beginReturn_of_down hdown _ _).2]
      rfl
  | finishes isFinish =>
      rw [isFinish]
      rfl

/-! ## No exports -/

theorem exports_transfer {c : Connection} (hdown : c.isDown = true) (hnone : c.exports = {})
    (action : Action) : (c.transfer action).exports = {} := by
  refine c.transfer_cases (P := fun d => d.exports = {}) action hnone ?_ ?_
  · intro id result
    exact (beginReturn_of_down hdown id result).1.trans hnone
  · intro id releaseCaps
    cases ha : c.answers.get? id with
    | none =>
        rw [c.finish_of_none releaseCaps ha]
        exact hnone
    | some a =>
        obtain ⟨hs, ts, heq⟩ := c.finish_shape releaseCaps ha
        rw [heq, hnone, Exports.release_of_empty]
        rfl

/-- A broken connection has no exports. -/
theorem Reachable.exports_of_down {c : Connection} (hc : Reachable c) (hdown : c.isDown = true) :
    c.exports = {} := by
  induction hc with
  | initial options => rfl
  | @step c action hprev ih =>
      rcases exports_rule.step c action with ⟨hlink, hexports⟩ | ⟨-, -, hnone⟩
      · have hbefore : c.isDown = true :=
          (isDown_of_link (hlink.trans (c.link_transfer action))).symm.trans hdown
        rw [hexports]
        exact exports_transfer hbefore (ih hbefore) action
      · exact hnone

theorem handsOut_along {c : Connection} (hc : Reachable c) (hdown : c.isDown = true)
    (actions : List Action) : along handsOut c actions = [] := by
  induction actions generalizing c with
  | nil => rfl
  | cons action rest ih =>
      have hstays : (c.step action).2.isDown = true := isDown_after hc hdown [action]
      simp only [along, handsOut_of_down hdown, ih (.step action hc) hstays, List.append_nil]

/-! ## What the records note -/

/-- A record of a later connection notes nothing, or what the record of the same call noted before. -/
def NotesNoMore (c c' : Connection) : Prop :=
  ∀ id b, c'.answers.get? id = some b → b.exports = [] ∨
    ∃ a, c.answers.get? id = some a ∧ a.call = b.call ∧ a.exports = b.exports

theorem notesNoMore_step {c : Connection} (hc : Reachable c) (hdown : c.isDown = true)
    (action : Action) : c.NotesNoMore (c.step action).2 := by
  intro id b hb
  rcases record_step hc action hb with ⟨a, ha, hages, hbalance⟩ | ⟨-, hnone⟩
  · cases hmessage : a.message with
    | none =>
        rcases hages.exports hmessage with hsame | hnone
        · exact Or.inr ⟨a, ha, hages.call.symm, hsame.symm⟩
        · exact Or.inl hnone
    | some e =>
        -- the return has yet to begin, so there was nothing noted, and nothing is handed out
        have hbefore : a.exports = [] := (hc.reckoning.answers id a ha).exports_eq_nil (by simp [hmessage])
        refine Or.inl (List.eq_nil_iff_forall_not_mem.2 fun e he => ?_)
        have hcount := hbalance e
        have hpos : 0 < b.exports.count e := List.count_pos_iff.2 he
        rw [handsOut_of_down hdown, hbefore] at hcount
        simp only [List.count_nil] at hcount
        omega
  · exact Or.inl hnone

theorem notesNoMore_after {c : Connection} (hc : Reachable c) (hdown : c.isDown = true)
    (actions : List Action) : c.NotesNoMore (c.after actions) := by
  induction actions generalizing c with
  | nil =>
      intro id b hb
      exact Or.inr ⟨b, hb, rfl, rfl⟩
  | cons action rest ih =>
      have hstays : (c.step action).2.isDown = true := isDown_after hc hdown [action]
      intro id b hb
      rcases ih (.step action hc) hstays id b hb with hnone | ⟨a', ha', hcall', hexports'⟩
      · exact Or.inl hnone
      · rcases notesNoMore_step hc hdown action id a' ha' with hnone | ⟨a, ha, hcall, hexports⟩
        · exact Or.inl (hexports' ▸ hnone)
        · exact Or.inr ⟨a, ha, hcall.trans hcall', hexports.trans hexports'⟩

/-- A broken connection exports nothing. -/
structure ExportsNothing (c : Connection) : Prop where
  /-- It has no exports, neither in slots nor by identity, whatever happens to it. -/
  empty : c.isDown = true → ∀ actions, (c.after actions).exports.table.slots = [] ∧
    (c.after actions).exports.byIdentity = .empty
  /-- No return hands a reference to the peer. -/
  handsOut : c.isDown = true → ∀ actions, along handsOut c actions = []
  /-- No record notes an export that it did not note before. -/
  notes : c.isDown = true → ∀ actions, c.NotesNoMore (c.after actions)

/-- Every connection that can come about exports nothing once it is broken. -/
theorem Reachable.exportsNothing {c : Connection} (hc : Reachable c) : c.ExportsNothing where
  empty hdown actions := by
    rw [(hc.after actions).exports_of_down (isDown_after hc hdown actions)]
    exact ⟨rfl, rfl⟩
  handsOut hdown actions := handsOut_along hc hdown actions
  notes hdown actions := notesNoMore_after hc hdown actions

/-- A run that ends a connection on which one call has returned a capability, the return of another one is
    held up at a gate, a third one waits behind it and a fourth one has its results built. -/
def withdrawingRun : List Action :=
  [.newAnswer 1 "first", .newAnswer 2 "second", .newAnswer 3 "third", .newAnswer 4 "fourth",
    .setBootstrap ⟨1, 0⟩ ⟨"a", 5⟩, .setBootstrap ⟨2, 1⟩ ⟨"b", 6⟩, .setBootstrap ⟨3, 2⟩ ⟨"c", 7⟩,
    .setBootstrap ⟨4, 3⟩ ⟨"d", 8⟩, .sendReturn ⟨1, 0⟩ (.ok ()) none, .poll 0, .gateSend,
    .sendReturn ⟨2, 1⟩ (.ok ()) none, .poll 1, .sendReturn ⟨3, 2⟩ (.ok ()) none, .poll 2,
    .disconnect (.external .failed "bye"), .poll 3]

theorem exportsNothing_after_withdrawing :
    along handsOut (initial {}) withdrawingRun = [(0, 0), (1, 1), (2, 2)] ∧
      ((initial {}).after withdrawingRun).isDown = true ∧
      ((initial {}).after withdrawingRun).ExportsNothing :=
  ⟨by decide +kernel, by decide +kernel, ((Reachable.initial {}).after withdrawingRun).exportsNothing⟩

/-! ## What the finish reports -/

theorem history_finish (c : Connection) {id : AnswerId} {a : Answer} (releaseCaps : Bool)
    (ha : c.answers.get? id = some a) : ∃ released, (∀ ids, .reported (.invalidExports ids) ∉ released) ∧
      (c.finish id releaseCaps).history =
        ((c.exports.release (a.givenBack releaseCaps)).errors.map Event.reported).reverse ++ released ++
          c.history := by
  simp only [finish, ha, reportAll_shape, List.append_assoc]
  split
  · exact ⟨[.releasedOnFinish id], by simp, rfl⟩
  · exact ⟨[], by simp, rfl⟩

/-- On a broken connection the peer's finish reports what the record notes, if that is to be given back. -/
theorem finish_of_down {c : Connection} (hc : Reachable c) (hdown : c.isDown = true) (id : AnswerId)
    (releaseCaps : Bool) : ∃ events, (c.finish id releaseCaps).history = events ++ c.history ∧
      ∀ ids, .reported (.invalidExports ids) ∈ events ↔ releaseCaps = true ∧ ids ≠ [] ∧
        ∃ a, c.answers.get? id = some a ∧ a.exports = ids := by
  cases ha : c.answers.get? id with
  | none =>
      rw [c.finish_of_none releaseCaps ha]
      exact ⟨[.reported (.unknownQuestion id)], rfl, by simp⟩
  | some a =>
      obtain ⟨released, hreleased, hhistory⟩ := c.history_finish releaseCaps ha
      have herrors : (c.exports.release (a.givenBack releaseCaps)).errors =
          if a.givenBack releaseCaps = [] then [] else [.invalidExports (a.givenBack releaseCaps)] := by
        rw [hc.exports_of_down hdown, Exports.release_of_empty]
        rfl
      rw [herrors] at hhistory
      refine ⟨_, hhistory, fun ids => ?_⟩
      rw [List.mem_append, List.mem_reverse, or_iff_left (hreleased ids)]
      cases releaseCaps with
      | false => simp [Answer.givenBack]
      | true =>
          simp only [Answer.givenBack, if_true, Option.some.injEq, exists_eq_left', true_and]
          split
          · next hnone => simp [hnone, eq_comm]
          · next hsome =>
              simp only [List.map_cons, List.map_nil, List.mem_singleton, Event.reported.injEq,
                Error.invalidExports.injEq]
              constructor
              · rintro rfl
                exact ⟨hsome, rfl⟩
              · rintro ⟨-, rfl⟩
                rfl

/-- What the records note, and what the peer's finish reports of it. -/
structure ReportsNoted (c : Connection) : Prop where
  /-- As long as the connection is up, what a record notes is exported. -/
  live : c.isDown = false → ∀ id a e, c.answers.get? id = some a → e ∈ a.exports →
    ∃ exp, c.exports.table.get? e = some exp
  /-- Nothing of it is when the connection is broken. -/
  lost : c.isDown = true → ∀ id a e, c.answers.get? id = some a → e ∈ a.exports →
    c.exports.table.get? e = none
  /-- A finish reports invalid exports if the connection is broken, they are to be given back and the record
      notes some; then it reports all that the record notes. Otherwise it reports none. -/
  reports : ∀ id releaseCaps, ∃ events,
    (c.step (.finish id releaseCaps)).2.history = events ++ c.history ∧
      ∀ ids, .reported (.invalidExports ids) ∈ events ↔ c.isDown = true ∧ releaseCaps = true ∧ ids ≠ [] ∧
        ∃ a, c.answers.get? id = some a ∧ a.exports = ids

/-- On every connection that can come about, a finish reports what the record notes just when the connection
    is broken. -/
theorem Reachable.reportsNoted {c : Connection} (hc : Reachable c) : c.ReportsNoted where
  live hup _ _ _ ha he := exists_export hc.reckoning ((c.isDown_eq_false_iff).1 hup) ha he
  lost hdown _ _ _ _ _ := by
    rw [hc.exports_of_down hdown]
    rfl
  reports id releaseCaps := by
    cases hdown : c.isDown with
    | true =>
        obtain ⟨events, hhistory, hreports⟩ := finish_of_down hc hdown id releaseCaps
        exact ⟨events, hhistory, fun ids => by simpa using hreports ids⟩
    | false =>
        obtain ⟨events, hhistory, hnone⟩ :=
          finish_unreported hc.reckoning ((c.isDown_eq_false_iff).1 hdown) id releaseCaps
        exact ⟨events, hhistory, fun ids => by simp [hnone ids]⟩

/-- A run that ends a connection after a call has returned a capability. -/
def lateReleaseRun : List Action :=
  [.newAnswer 7 "call", .setBootstrap ⟨7, 0⟩ ⟨"object", 5⟩, .sendReturn ⟨7, 0⟩ (.ok ()) none, .poll 0,
    .disconnect (.external .failed "bye"), .poll 1]

theorem reportsNoted_after_lateRelease :
    ((initial {}).after lateReleaseRun).isDown = true ∧
      (((initial {}).after lateReleaseRun).answers.get? 7).map Answer.exports = some [0] ∧
      ((initial {}).after lateReleaseRun).ReportsNoted :=
  ⟨by decide +kernel, by decide +kernel, ((Reachable.initial {}).after lateReleaseRun).reportsNoted⟩

/-- A record may note what is not exported, and then the peer's finish reports it. -/
theorem invalid_after_lateRelease :
    (¬ ∀ options before id a e, ((initial options).after before).answers.get? id = some a → e ∈ a.exports →
      ∃ exp, ((initial options).after before).exports.table.get? e = some exp) ∧
    ¬ ∀ options before id releaseCaps, ∃ events,
      (((initial options).after before).step (.finish id releaseCaps)).2.history =
        events ++ ((initial options).after before).history ∧
      ∀ ids, .reported (.invalidExports ids) ∉ events := by
  have hc := (Reachable.initial {}).after lateReleaseRun
  have hdown : ((initial {}).after lateReleaseRun).isDown = true := by decide +kernel
  have hnoted : (((initial {}).after lateReleaseRun).answers.get? 7).map Answer.exports = some [0] := by
    decide +kernel
  obtain ⟨a, ha, hexports⟩ := Option.map_eq_some_iff.1 hnoted
  refine ⟨?_, ?_⟩
  · intro hlive
    obtain ⟨exp, hexp⟩ := hlive {} lateReleaseRun 7 a 0 ha (by simp [hexports])
    rw [hc.exports_of_down hdown] at hexp
    cases hexp
  · intro hquiet
    obtain ⟨events, hhistory, hreports⟩ := finish_of_down hc hdown 7 true
    obtain ⟨quiet, hsame, hnone⟩ := hquiet {} lateReleaseRun 7 true
    obtain rfl : events = quiet := List.append_cancel_right (hhistory.symm.trans hsame)
    exact hnone [0] ((hreports [0]).2 ⟨rfl, by simp, a, ha, hexports⟩)

end Connection

end Callee
