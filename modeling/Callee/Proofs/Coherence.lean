import Callee.Proofs.Commuting
import Callee.Proofs.Outcomes

set_option autoImplicit false

/-! # Records are coherent

A record says how far its call has come, and what the call completed with. The two fit together at all times:
a record that is ready has parted with its message, an error or results stand only in a record that is ready,
and never both, and references are noted only beside the results they were handed out with
(`Answer.Coherent`). A completion or a cancellation would break this if it came upon a record that is ready
already, and neither ever does, since a handle that still owes its return finds its call running. An
`OpenRule` is a rule for whole steps that takes this for granted.

Two consequences follow. A finish that comes before the call has completed leaves the record in the table, and
nobody who holds a handle is ever told that the results have been returned before
(`Reachable.coherent`). -/

namespace Callee

/-! ## Working on a return -/

namespace Message

/-- For want of room only is there no struct in a return under construction. -/
theorem error_of_allocateResults {m : Message} (hm : m.IsDraft) {size : ObjectSize} {e : Error}
    (h : (m.allocateResults size).1 = .error e) : ∃ limit, e = .sizeLimit limit := by
  obtain ⟨ret, hret⟩ := hm
  rcases allocateResults_cases hret.root size with
    ⟨words, -, -, heq⟩ | ⟨limit, -, -, heq | ⟨words, -, heq⟩⟩ <;> rw [heq] at h
  · exact absurd h (by simp)
  · exact ⟨limit, (Except.error.inj h).symm⟩
  · exact ⟨limit, (Except.error.inj h).symm⟩

/-- For want of room only is there no capability in a return under construction. -/
theorem error_of_setBootstrap {m : Message} (hm : m.IsDraft) {cap : Capability} {e : Error}
    (h : (m.setBootstrap cap).1 = .error e) : ∃ limit, e = .sizeLimit limit := by
  obtain ⟨ret, hret⟩ := hm
  rcases setBootstrap_cases hret.root cap with ⟨words, -, -, heq⟩ | ⟨limit, -, -, heq⟩ <;> rw [heq] at h
  · exact absurd h (by simp)
  · exact ⟨limit, (Except.error.inj h).symm⟩

end Message

/-! ## Coherent records -/

namespace Answer

/-- A record keeps one outcome of its call at most, and none while the call is running. -/
structure OneOutcome (a : Answer) : Prop where
  error : a.error ≠ none → a.state.resultsReady = true
  results : a.results ≠ none → a.state.resultsReady = true ∧ a.error = none
  exports : a.exports ≠ [] → a.results ≠ none

/-- What a record says of its call fits together. -/
structure Coherent (a : Answer) : Prop extends a.OneOutcome where
  sent : a.state.returnSent = true → a.state.resultsReady = true
  parted : a.state.resultsReady = true → a.message = none
  unready : a.state.resultsReady = false → a.exports = []

namespace OneOutcome

variable {a a' : Answer}

/-- A record keeps no outcome while its call is running. -/
theorem of_open (h : a.OneOutcome) (hopen : a.state.resultsReady = false) :
    a.error = none ∧ a.results = none ∧ a.exports = [] := by
  have hnot : ¬ a.state.resultsReady = true := by simp [hopen]
  have hresults : a.results = none := Classical.byContradiction fun hne => hnot (h.results hne).1
  refine ⟨Classical.byContradiction fun hne => hnot (h.error hne), hresults, ?_⟩
  exact Classical.byContradiction fun hne => h.exports hne hresults

/-- Other parts of the record change. -/
theorem of_same (h : a.OneOutcome) (ready : a.state.resultsReady = true → a'.state.resultsReady = true)
    (error : a'.error = a.error) (results : a'.results = a.results)
    (exports : a'.exports = a.exports ∨ a'.exports = []) : a'.OneOutcome where
  error hne := ready (h.error (error ▸ hne))
  results hne := by
    rw [results] at hne
    rw [error]
    exact ⟨ready (h.results hne).1, (h.results hne).2⟩
  exports hne := by
    rw [results]
    exact h.exports (exports.elim (fun hsame => hsame ▸ hne) fun hnone => absurd hnone hne)

/-- A running call completes with an error, or with nothing. -/
theorem of_complete (h : a.OneOutcome) (hopen : a.state.resultsReady = false) (e : Option Error) :
    (a.complete e).OneOutcome where
  error _ := rfl
  results hne := absurd (h.of_open hopen).2.1 hne
  exports hne := absurd (h.of_open hopen).2.2 hne

end OneOutcome

end Answer

namespace Connection

open Books

/-! ## Rules for calls that are running -/

/-- All that a step calls. A call is given up or begins to complete only while it is running. -/
structure OpenRule (R : Connection → Connection → Prop) : Prop extends SteadyRule OpenAt R where
  begins : ∀ {c : Connection}, Reachable c → ∀ id result, OpenAt c.answers id →
    R c (c.beginReturn id result).2
  routes : ∀ c id name, R c (c.setPipeline id name)
  edits : ∀ (c : Connection) ref change, R c { c with messages := (c.messages.edit ref change).2 }
  finishes : ∀ c id releaseCaps, R c (c.finish id releaseCaps)

namespace OpenRule

variable {R : Connection → Connection → Prop}

theorem transfer (rule : OpenRule R) {c : Connection} (hc : Reachable c) (action : Action) :
    R c (c.transfer action) := by
  cases c.opening action with
  | nothing htransfer =>
      rw [htransfer]
      exact rule.quiet rfl
  | @begins t h result owes htransfer =>
      rw [htransfer]
      exact rule.begins hc h.id result (hc.openAt (p := .task t) owes)
  | @finishes id releaseCaps isFinish =>
      subst isFinish
      exact rule.finishes c id releaseCaps

/-- What holds across every operation holds across every step of a connection that can come about. -/
theorem step (rule : OpenRule R) {c : Connection} (hc : Reachable c) (action : Action) :
    R c (c.step action).2 := by
  by_cases hset : ∃ id name, action = .setPipeline id name
  · obtain ⟨id, name, rfl⟩ := hset
    simp only [Connection.step]
    split
    · exact rule.routes c id name
    · exact rule.quiet rfl
  by_cases hedit : ∃ ref change, action = .edit ref change
  · obtain ⟨ref, change, rfl⟩ := hedit
    have hwrite := rule.edits c ref change
    simp only [Connection.step]
    split <;> next heq => rw [heq] at hwrite; exact hwrite
  exact rule.trans (rule.transfer hc action) (rule.step_of_ne hc.givesUp
    (fun id name h => hset ⟨id, name, h⟩) fun ref change h => hedit ⟨ref, change, h⟩)

/-- What every operation carries on, and what holds at first, holds of every connection that can come
    about. -/
theorem reachable {I : Connection → Prop} (rule : OpenRule fun c c' => I c → I c')
    (first : ∀ options, I (Connection.initial options)) {c : Connection} (hc : Reachable c) : I c := by
  induction hc with
  | initial options => exact first options
  | step action hprev ih => exact rule.step hprev action ih

end OpenRule

/-! ## Outcomes over a step -/

/-- The records keep one outcome each. -/
def OneOutcomes (answers : Table AnswerId Answer) : Prop :=
  ∀ id a, answers.get? id = some a → a.OneOutcome

/-- One record is replaced, or leaves the table. -/
theorem OneOutcomes.replace {answers answers' : Table AnswerId Answer} (h : OneOutcomes answers)
    {id : AnswerId} {a' : Answer} (replaced : answers' = answers.insert id a' ∨ answers' = answers.erase id)
    (ha' : a'.OneOutcome) : OneOutcomes answers' := by
  intro j x hx
  rcases Table.get?_of_replaced replaced hx with ⟨-, rfl⟩ | ⟨-, hx⟩
  · exact ha'
  · exact h j x hx

/-- What a completion that begins leaves in the record: the error it was given, or none and the results. -/
theorem error_beginReturn (c : Connection) {id : AnswerId} {a a' : Answer} (ha : c.answers.get? id = some a)
    {result : Except Error Unit} (ha' : (c.beginReturn id result).2.answers.get? id = some a') :
    a'.error = none ∨ a'.results = a.results ∧ a'.exports = a.exports := by
  cases hmsg : a.message with
  | none =>
      simp only [beginReturn, ha, hmsg] at ha'
      obtain rfl := Option.some.inj ((Table.get?_insert_self _ _ _).symm.trans ha')
      exact Or.inr ⟨rfl, rfl⟩
  | some e =>
      cases result with
      | ok u =>
          simp only [beginReturn, ha, hmsg, returnResults, reportAll_shape] at ha'
          obtain rfl := Option.some.inj ((Table.get?_insert_self _ _ _).symm.trans ha')
          exact Or.inl rfl
      | error x =>
          have hsame : (c.beginReturn id (.error x)).2.answers =
              c.answers.insert id (a.complete (some x)) := by
            simp only [beginReturn, ha, hmsg, returnError]
            split <;> rfl
          rw [hsame] at ha'
          obtain rfl := Option.some.inj ((Table.get?_insert_self _ _ _).symm.trans ha')
          exact Or.inr ⟨rfl, rfl⟩

/-- A running call that begins to complete leaves one outcome in its record. -/
theorem oneOutcome_beginReturn {c : Connection} (hc : Reachable c) {id : AnswerId}
    (hopen : OpenAt c.answers id) (result : Except Error Unit) (h : OneOutcomes c.answers) :
    OneOutcomes (c.beginReturn id result).2.answers := by
  cases ha : c.answers.get? id with
  | none =>
      rw [c.beginReturn_of_none result ha]
      exact h
  | some a =>
      have horder := hc.reckoning.answers id a ha
      obtain ⟨-, hnone, hempty⟩ := (h id a ha).of_open (hopen a ha)
      obtain ⟨begun, c', a', heq, hbegun⟩ :=
        c.beginReturn_begun hc.reckoning.exports ha (fun e he => (horder.unbegun e he).1) result
      have hready : a'.state.resultsReady = true := by
        rw [hbegun.state]
        rfl
      have hreplaced : (c.beginReturn id result).2.answers = c.answers.insert id a' := by
        rw [heq]
        exact hbegun.answers
      have ha' : (c.beginReturn id result).2.answers.get? id = some a' := by
        rw [hreplaced]
        exact Table.get?_insert_self _ _ _
      refine h.replace (Or.inl hreplaced) ⟨fun _ => hready, fun hne => ⟨hready, ?_⟩, fun hne => ?_⟩
      · rcases c.error_beginReturn ha ha' with herror | ⟨hsame, -⟩
        · exact herror
        · exact absurd (hsame.trans hnone) hne
      · -- references are noted with results only
        rcases hbegun.exports with ⟨-, hkept, -, -⟩ | ⟨-, -, -, hnamed⟩
        · exact absurd (hkept.trans hempty) hne
        · obtain ⟨r, hr, -⟩ := hnamed hc.reckoning.filled
          simp [hr]

theorem Rewrites.oneOutcome {a a' : Answer} (h : Rewrites (fun b => b.state.resultsReady = false) a a')
    (ha : a.OneOutcome) : a'.OneOutcome := by
  induction h with
  | same => exact ha
  | canceled _ known ih =>
      have hcomplete := ih.of_complete known (some .callCanceled)
      exact hcomplete.of_same (fun h => h) rfl rfl (Or.inl rfl)
  | marked _ ih => exact ih.of_same (fun h => h) rfl rfl (Or.inl rfl)
  | worked _ e _ ih => exact ih.of_same (fun h => h) rfl rfl (Or.inl rfl)
  | routed _ name _ ih => exact ih.of_same (fun h => h) rfl rfl (Or.inl rfl)
  | cut _ ih => exact ih.of_same (fun h => h) rfl rfl (Or.inl rfl)

theorem Renews.oneOutcomes {c c' : Connection} (h : c.Renews (fun b => b.state.resultsReady = false) c')
    (hc : OneOutcomes c.answers) : OneOutcomes c'.answers := by
  intro id a' ha'
  obtain ⟨a, ha, hrewrites⟩ := h.2 id a' ha'
  refine hrewrites.oneOutcome ?_
  rcases ha with ha | ⟨-, call, token, message, rfl⟩
  · exact hc id a ha
  · exact ⟨fun hne => absurd rfl hne, fun hne => absurd rfl hne, fun hne => absurd rfl hne⟩

theorem oneOutcomes_rule : OpenRule fun c c' => OneOutcomes c.answers → OneOutcomes c'.answers where
  toSteadyRule := (renews_steady _).mono (fun h h' hc => h' (h hc)) Renews.oneOutcomes
  edits _ _ _ hc := hc
  begins hreach _ result hopen hc := oneOutcome_beginReturn hreach hopen result hc
  routes c id name := (renews_setPipeline _ c id name).oneOutcomes
  finishes c id releaseCaps hc := by
    cases ha : c.answers.get? id with
    | none => rwa [c.finish_of_none releaseCaps ha]
    | some a =>
        obtain ⟨hs, ts, heq⟩ := c.finish_shape releaseCaps ha
        have hexports : (a.markFinishReceived releaseCaps).exports = a.exports ∨
            (a.markFinishReceived releaseCaps).exports = [] := by
          cases releaseCaps with
          | true => exact Or.inr rfl
          | false => exact Or.inl rfl
        rw [heq]
        exact hc.replace (answers_putAnswer _ id _) ((hc id a ha).of_same (fun h => h) rfl rfl hexports)

theorem Reachable.oneOutcomes {c : Connection} (hc : Reachable c) : OneOutcomes c.answers :=
  oneOutcomes_rule.reachable (fun options id a ha => absurd ha (by simp [Connection.initial])) hc

/-- On every connection that can come about the records are coherent. -/
theorem Reachable.coherent_record {c : Connection} (hc : Reachable c) {id : AnswerId} {a : Answer}
    (ha : c.answers.get? id = some a) : a.Coherent where
  toOneOutcome := hc.oneOutcomes id a ha
  sent := hc.custody.sent_ready (status_of_get? (b := c.books) ha)
  parted := (hc.reckoning.answers id a ha).message_eq_none
  unready hopen := ((hc.oneOutcomes id a ha).of_open hopen).2.2

/-! ## What follows for finishes and handles -/

/-- A finish that comes while the call is running is noted in its record. -/
theorem get?_finish_of_open {c : Connection} (hc : Reachable c) {id : AnswerId} {a : Answer}
    (ha : c.answers.get? id = some a) (hopen : a.state.resultsReady = false) (releaseCaps : Bool) :
    (c.finish id releaseCaps).answers.get? id = some (a.markFinishReceived releaseCaps) := by
  have hnot : (a.markFinishReceived releaseCaps).state.isDone = false := by
    cases hdone : (a.markFinishReceived releaseCaps).state.isDone with
    | false => rfl
    | true =>
        have hsent : a.state.markFinishReceived.returnSent = true :=
          ((AnswerState.isDone_iff _).1 hdone).1
        have hready := (hc.coherent_record ha).sent (by simpa using hsent)
        exact absurd (hopen.symm.trans hready) (by simp)
  obtain ⟨hs, ts, heq⟩ := c.finish_shape releaseCaps ha
  rw [heq, get?_putAnswer, if_pos rfl, hnot]
  rfl

/-- Whoever holds a handle is given the return to work on, or is told that none was reserved. -/
theorem openReturn_of_holds {c : Connection} (hc : Reachable c) {h : Handle} (hheld : c.holds h = true) :
    ∃ a, c.answers.get? h.id = some a ∧ (a.openReturn h.id = .error (.noReturnMessage h.id) ∨
      ∃ e, a.openReturn h.id = .ok e ∧ (c.messages.message e).IsDraft) := by
  obtain ⟨a, ha, hcall, -, hopen⟩ := hc.custody.found_at (holds_executor hheld)
  refine ⟨a, ha, ?_⟩
  cases hmsg : a.message with
  | none =>
      refine Or.inl ?_
      simp [Answer.openReturn, hopen, hmsg]
  | some e =>
      have hdraft : (c.messages.message e).IsDraft := hc.isDraft h _ (draft?_of_record ha hcall hopen hmsg)
      exact Or.inr ⟨e, (a.openReturn_eq_ok_iff h.id e).2 ⟨hopen, hmsg⟩, hdraft⟩

/-- Room for results is refused through a handle for want of a return or of words only. -/
theorem failed_allocateResults {c : Connection} (hc : Reachable c) {h : Handle} {size : ObjectSize} {e : Error}
    (hfailed : (c.step (.allocateResults h size)).1 = .failed e) :
    e = .allocatingResults (.noReturnMessage h.id) ∨ ∃ limit, e = .allocatingResults (.sizeLimit limit) := by
  by_cases hheld : c.holds h = true
  · obtain ⟨a, ha, hnone | ⟨d, hopen, hdraft⟩⟩ := openReturn_of_holds hc hheld
    · simp only [step, hheld, if_true, allocateResults, ha, hnone, Reply.failed.injEq] at hfailed
      exact Or.inl hfailed.symm
    · have hroom : ∀ x, ((c.messages.message d).allocateResults size).1 = .error x →
          ∃ limit, x = .sizeLimit limit := fun _ => Message.error_of_allocateResults hdraft
      simp only [step, hheld, if_true, allocateResults, ha, hopen] at hfailed
      generalize (c.messages.message d).allocateResults size = built at hfailed hroom
      obtain ⟨outcome, m⟩ := built
      cases outcome with
      | ok index => exact absurd hfailed (by simp)
      | error x =>
          obtain ⟨limit, rfl⟩ := hroom x rfl
          exact Or.inr ⟨limit, (Reply.failed.inj hfailed).symm⟩
  · rw [step, if_neg hheld] at hfailed
    exact absurd hfailed (by simp)

/-- So is room for a capability. -/
theorem failed_setBootstrap {c : Connection} (hc : Reachable c) {h : Handle} {cap : Capability} {e : Error}
    (hfailed : (c.step (.setBootstrap h cap)).1 = .failed e) :
    e = .allocatingBootstrap (.noReturnMessage h.id) ∨
      ∃ limit, e = .allocatingBootstrap (.sizeLimit limit) := by
  by_cases hheld : c.holds h = true
  · obtain ⟨a, ha, hnone | ⟨d, hopen, hdraft⟩⟩ := openReturn_of_holds hc hheld
    · simp only [step, hheld, if_true, setBootstrap, ha, hnone, Reply.failed.injEq] at hfailed
      exact Or.inl hfailed.symm
    · have hroom : ∀ x, ((c.messages.message d).setBootstrap cap).1 = .error x →
          ∃ limit, x = .sizeLimit limit := fun _ => Message.error_of_setBootstrap hdraft
      simp only [step, hheld, if_true, setBootstrap, ha, hopen] at hfailed
      generalize (c.messages.message d).setBootstrap cap = built at hfailed hroom
      obtain ⟨outcome, m⟩ := built
      cases outcome with
      | ok u => exact absurd hfailed (by simp)
      | error x =>
          obtain ⟨limit, rfl⟩ := hroom x rfl
          exact Or.inr ⟨limit, (Reply.failed.inj hfailed).symm⟩
  · rw [step, if_neg hheld] at hfailed
    exact absurd hfailed (by simp)

/-! ## All connections -/

/-- The records are coherent, and nothing that has been returned is asked for again. -/
structure Coherent (c : Connection) : Prop where
  records : ∀ id a, c.answers.get? id = some a → a.Coherent
  /-- A finish, with whichever flag and however often it comes, does not take away a record whose call is
      running. -/
  finishes : ∀ id a releaseCaps, c.answers.get? id = some a → a.state.resultsReady = false →
    (c.step (.finish id releaseCaps)).2.answers.get? id = some (a.markFinishReceived releaseCaps)
  /-- Nobody is told through a handle that the results have been returned before. -/
  allocates : ∀ h size id,
    (c.step (.allocateResults h size)).1 ≠ .failed (.allocatingResults (.alreadyReturned id))
  boots : ∀ h cap id,
    (c.step (.setBootstrap h cap)).1 ≠ .failed (.allocatingBootstrap (.alreadyReturned id))

theorem Reachable.coherent {c : Connection} (hc : Reachable c) : c.Coherent where
  records _ _ ha := hc.coherent_record ha
  finishes _ _ releaseCaps ha hopen := get?_finish_of_open hc ha hopen releaseCaps
  allocates h size id hfailed := by
    rcases failed_allocateResults hc hfailed with heq | ⟨limit, heq⟩
    · exact absurd (Error.allocatingResults.inj heq) (by simp)
    · exact absurd (Error.allocatingResults.inj heq) (by simp)
  boots h cap id hfailed := by
    rcases failed_setBootstrap hc hfailed with heq | ⟨limit, heq⟩
    · exact absurd (Error.allocatingBootstrap.inj heq) (by simp)
    · exact absurd (Error.allocatingBootstrap.inj heq) (by simp)

/-- A run that leaves a record of each kind: results with a reference beside them, an error, a call that was
    given up, and a call that is running though its finish has come, and comes again. -/
def mixedRun : List Action :=
  [.newAnswer 1 "results", .setBootstrap ⟨1, 0⟩ ⟨"door", 5⟩, .sendReturn ⟨1, 0⟩ (.ok ()) none, .poll 0,
    .newAnswer 2 "error", .sendReturn ⟨2, 1⟩ (.error (.external .failed "no")) none, .poll 1,
    .newAnswer 3 "dropped", .dropHandle ⟨3, 2⟩, .newAnswer 4 "running", .finish 4 true]

theorem coherent_after_mixing :
    let c := (initial {}).after mixedRun
    (c.answers.get? 1).map (·.exports) = some [0] ∧
      (c.answers.get? 2).map (·.error) = some (some (.external .failed "no")) ∧
      (c.answers.get? 3).map (·.error) = some (some .callCanceled) ∧
      c.answerState? 4 = some ⟨.finishReceived, false⟩ ∧
      (c.step (.finish 4 true)).2.answerState? 4 = some ⟨.finishReceived, false⟩ ∧ c.Coherent :=
  ⟨by decide +kernel, by decide +kernel, by decide +kernel, by decide +kernel, by decide +kernel,
    ((Reachable.initial {}).after mixedRun).coherent⟩

end Connection

end Callee
