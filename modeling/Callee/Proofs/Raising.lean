import Callee.Proofs.Unreserved

set_option autoImplicit false

/-! # Calls that complete with an error

An error is written into the return of its call in two steps, first the exception and then its text, and
the return is abandoned if either finds no room. What was written into it before plays no part in that but
by the words it has used: the return goes to the sender exactly if the exception and the whole text fit in
what is left (`Message.hasRoom_iff`), and it says all of the error then (`root_of_writeException`). Either way
the results that were set before are gone, nothing is exported for the call, and pipelined calls for it fail
with the error (`Reachable.raised`). -/

namespace Callee

/-! ## Room for an error -/

namespace Message

/-- There is room for an exception, which has three words, and for the whole text of an error: its bytes and
    a closing zero, rounded up to words. -/
def HasTextRoom (m : Message) (e : Error) : Prop :=
  ∀ limit, m.arena.wordLimit = some limit →
    m.arena.wordsUsed + 3 + (e.message.utf8ByteSize + 1 + 7) / 8 ≤ limit

/-- Below that size the words of a text do not wrap around. -/
theorem toNat_textWords {text : String} (h : text.utf8ByteSize < 2 ^ 32) :
    (textWords text).toNat = (text.utf8ByteSize + 1 + 7) / 8 := by
  show (((text.utf8ByteSize + 8) / 8).toUInt32).toNat = _
  rw [Nat.toUInt32_eq, UInt32.toNat_ofNat_of_lt' (by unfold UInt32.size; omega)]

/-- Neither do those of the text of an error. -/
theorem hasRoom_iff {m : Message} {e : Error} (hsize : e.message.utf8ByteSize < 2 ^ 32) :
    m.HasRoom e ↔ m.HasTextRoom e := by
  unfold HasRoom HasTextRoom
  rw [toNat_textWords hsize]
  rfl

end Message

namespace Connection

open Books

/-! ## The first poll -/

/-- What the beginning of a completion with an error makes of a connection that is up. -/
theorem beginReturn_of_error {c : Connection} {id : AnswerId} {a : Answer} {d : Envelope}
    (ha : c.answers.get? id = some a) (hd : a.message = some d) (hup : c.isDown = false) (e : Error) :
    let written := (c.messages.message d).writeException e
    let c' := { c with
      messages := (c.messages.put d written.2).2
      answers := c.answers.insert id (a.complete (some e)) }
    (written.1 = .ok () → c.beginReturn id (.error e) =
        (some ⟨some { d with root := written.2.root }, a.state.finishReceived⟩, c')) ∧
      ∀ x, written.1 = .error x → c.beginReturn id (.error e) =
        (some ⟨none, a.state.finishReceived⟩, c'.report (.sendingException x)) := by
  intro written c'
  have hbegin : c.beginReturn id (.error e) =
      (some (c.returnError id (a.complete (some e)) d e).1, (c.returnError id (a.complete (some e)) d e).2) := by
    simp only [beginReturn, ha, hd]
  rw [hbegin]
  unfold returnError
  refine ⟨fun hok => ?_, fun x herror => ?_⟩
  · dsimp only
    split
    · next y heq => exact absurd (hok.symm.trans heq) (by simp)
    · show (some (⟨if c.isDown then none else _, _⟩ : BegunReturn), _) = _
      rw [hup]
      rfl
  · dsimp only
    split
    · next y heq =>
        obtain rfl := Except.error.inj (herror.symm.trans heq)
        rfl
    · next heq => exact absurd (herror.symm.trans heq) (by simp)

/-- A completion that begins without a return is settled at once. -/
theorem step_poll_of_abandoned {c c' : Connection} {t : TaskId} {h : Handle} {result : Except Error Unit}
    {guard : Option Token} {f : Bool} {b : Answer}
    (hget : c.tasks.get? t = some ⟨.sendReturn h (.unbegun result), guard⟩)
    (hlive : guard.any c.isCanceled = false) (hbegin : c.beginReturn h.id result = (some ⟨none, f⟩, c'))
    (hb : c'.answers.get? h.id = some b) :
    (c.step (.poll t)).2.answers = (c'.putAnswer h.id b.markReturnSent).answers ∧
      (c.step (.poll t)).2.history =
        (if b.markReturnSent.state.isDone then [.releasedAfterReturn h.id] else []) ++ c'.history := by
  obtain ⟨-, ts, heq⟩ := step_poll_of_live hget hlive
  have hrun : (c.run t (.sendReturn h (.unbegun result))).2 = (c'.settleReturn h).2 := by
    rw [run_sendReturn]
    show (c.pollReturn t h (.unbegun result)).2 = _
    simp only [pollReturn, hbegin]
  rw [heq, hrun]
  show (c'.endReturn h.id).answers = _ ∧ (c'.endReturn h.id).history = _
  simp only [endReturn, hb]
  split
  · exact ⟨rfl, rfl⟩
  · exact ⟨rfl, rfl⟩

/-- Looking after a completion that has begun leaves the exports alone. -/
theorem exports_returnRule : ReturnRule fun c c' => c'.exports = c.exports where
  trans h h' := h'.trans h
  stays _ := rfl
  reports _ _ := rfl
  sends c t call send := congrArg Books.exports (c.books_pollSend t (some call) send)
  ends c id := by
    cases ha : c.answers.get? id with
    | none => rw [c.endReturn_of_none ha]
    | some a =>
        obtain ⟨hs, heq⟩ := c.endReturn_shape ha
        rw [heq]
        rfl
  delivers c h w := congrArg Books.exports (c.books_awaitDeliveries h w)

/-- A pipelined call for a record that shows an error fails with it, and nothing else comes of it. -/
theorem forward_of_failed {c : Connection} {id : AnswerId} {a : Answer} {e : Error}
    (ha : c.answers.get? id = some a) (hcaller : a.caller = none) (hready : a.state.resultsReady = true)
    (herror : a.error = some e) (call : PipelinedCall) : c.forward id call = (.error e, c) := by
  have hroute : c.route id call.path = .error e := by
    simp only [route, ha, hcaller, hready, if_true, herror]
  unfold forward forwardWithin
  rw [hroute]

/-- Polling a task begins to complete a call with an error. The connection is up, and `draft` is the return
    that was reserved for the call, with whatever was written into it. -/
structure Raises (c : Connection) (t : TaskId) (h : Handle) (e : Error) (draft : Message) : Prop where
  task : ∃ guard, c.tasks.get? t = some ⟨.sendReturn h (.unbegun (.error e)), guard⟩ ∧
    guard.any c.isCanceled = false
  up : c.isDown = false
  reserved : ∃ a d, c.answers.get? h.id = some a ∧ a.message = some d ∧ c.messages.message d = draft

/-- The return of a call that says all of an error. -/
def errorReturn (h : Handle) (e : Error) : Root :=
  .return {
    answerId := h.id
    releaseParamCaps := false
    outcome := .exception { type := e.exceptionType, reason := e.message } }

/-- What comes of it. -/
structure Raised (c : Connection) (t : TaskId) (h : Handle) (e : Error) (draft : Message) : Prop where
  /-- A return goes to the sender exactly if there is room for the whole text. -/
  goes : (∃ d, c.onItsWay (.sendReturn h (.unbegun (.error e))) = some (h.call, .waiting d)) ↔
    draft.HasTextRoom e
  /-- What is handed over for the call, whenever that is, says all of the error. -/
  told : ∀ more, ∀ m ∈ (c.after (.poll t :: more)).sends h.call, m.root = some (errorReturn h e)
  /-- It is handed over before the completion is finished. -/
  sent : draft.HasTextRoom e → ∀ more, c.FinishesIn t (.poll t :: more) →
    ((c.after (.poll t :: more)).sends h.call).length = 1
  /-- Without room nothing is ever handed over, -/
  silent : ¬ draft.HasTextRoom e → ∀ more, (c.after (.poll t :: more)).sends h.call = []
  /-- one error is reported, and the answer counts as returned: it stays only if the finish is not in. -/
  settled : ¬ draft.HasTextRoom e → ∃ a limit, c.answers.get? h.id = some a ∧
    draft.arena.wordLimit = some limit ∧
    (c.step (.poll t)).2.history = (if a.state.finishReceived then [.releasedAfterReturn h.id] else []) ++
      .reported (.sendingException (.sizeLimit limit)) :: c.history ∧
    (c.step (.poll t)).2.answers.get? h.id =
      if a.state.finishReceived then none else some (a.complete (some e)).markReturnSent
  /-- The exports stay as they are, and nothing is ever handed out for the call. -/
  exports : (c.step (.poll t)).2.exports = c.exports
  unexported : ∀ more x, (h.call, x) ∉ along handsOut c (.poll t :: more)
  /-- The record of the call keeps neither a message nor results nor references. -/
  bare : ∀ more id b, (c.after (.poll t :: more)).answers.get? id = some b → b.call = h.call → b.Bare
  /-- As long as there is a record of the call, pipelined calls for it fail with the error. The connection `d` is
      the one that the run comes to or, where receivers forward calls, one that differs from it in its dealings
      only. -/
  fails : ∀ more (d : Connection) b call, d.books = (c.after (.poll t :: more)).books →
    d.answers.get? h.id = some b → b.call = h.call → d.forward h.id call = (.error e, d)

namespace Raises

variable {c : Connection} {t : TaskId} {h : Handle} {e : Error} {draft : Message}

theorem holds (hr : c.Raises t h e draft) : c.books.Holds (.task t) h .building := by
  obtain ⟨guard, hget, -⟩ := hr.task
  exact taskOwes_of_get? (b := c.books) hget

/-- The return may go out exactly if there is room for the error. -/
theorem sendable_iff (hr : c.Raises t h e draft) : c.Sendable h (.error e) ↔ draft.HasRoom e := by
  obtain ⟨a, d, ha, hd, rfl⟩ := hr.reserved
  constructor
  · rintro ⟨-, b, d', hb, hd', hroom⟩
    obtain rfl := Option.some.inj (ha.symm.trans hb)
    obtain rfl := Option.some.inj (hd.symm.trans hd')
    exact hroom e rfl
  · intro hroom
    refine ⟨hr.up, a, d, ha, hd, fun x hx => ?_⟩
    obtain rfl := Except.error.inj hx
    exact hroom

/-- The return that was reserved is the return of the call. -/
theorem addressed (hr : c.Raises t h e draft) (hc : Reachable c) : ReturnFor h.id draft.root := by
  obtain ⟨a, d, ha, hd, rfl⟩ := hr.reserved
  exact hc.addressed h.id a d ha hd

/-- What goes to the sender says all of the error. -/
theorem root_of_onItsWay (hr : c.Raises t h e draft) (hc : Reachable c) {d' : Envelope}
    (hway : c.onItsWay (.sendReturn h (.unbegun (.error e))) = some (h.call, .waiting d')) :
    d'.root = some (errorReturn h e) := by
  obtain ⟨ret, hroot, hid, hrelease⟩ := hr.addressed hc
  obtain ⟨a, d, ha, hd, rfl⟩ := hr.reserved
  obtain ⟨hwritten, habandoned⟩ := beginReturn_of_error ha hd hr.up e
  cases hresult : ((c.messages.message d).writeException e).1 with
  | error x =>
      simp only [onItsWay, habandoned x hresult, Option.bind_some] at hway
      exact absurd hway (by simp)
  | ok u =>
      simp only [onItsWay, hwritten hresult, Option.bind_some, Option.map_some, Option.some.injEq,
        Prod.mk.injEq, SendStage.waiting.injEq, true_and] at hway
      subst hway
      show ((c.messages.message d).writeException e).2.root = _
      rw [Message.root_of_writeException hroot hresult]
      obtain ⟨id, release, outcome⟩ := ret
      obtain rfl : id = h.id := hid
      obtain rfl : release = false := hrelease
      rfl

/-- Without room for the error its completion is settled at once, and that it was not sent is reported. -/
theorem settled_of_cramped (hr : c.Raises t h e draft) (hc : Reachable c) (hno : ¬ draft.HasRoom e) :
    ∃ a limit, c.answers.get? h.id = some a ∧ draft.arena.wordLimit = some limit ∧
      (c.step (.poll t)).2.history = (if a.state.finishReceived then [.releasedAfterReturn h.id] else []) ++
        .reported (.sendingException (.sizeLimit limit)) :: c.history ∧
      (c.step (.poll t)).2.answers.get? h.id =
        if a.state.finishReceived then none else some (a.complete (some e)).markReturnSent := by
  obtain ⟨ret, hroot, -⟩ := hr.addressed hc
  obtain ⟨guard, hget, hlive⟩ := hr.task
  obtain ⟨a, d, ha, hd, rfl⟩ := hr.reserved
  obtain ⟨-, habandoned⟩ := beginReturn_of_error ha hd hr.up e
  cases hresult : ((c.messages.message d).writeException e).1 with
  | ok u => exact absurd ((Message.writeException_eq_ok_iff hroot e).1 hresult) hno
  | error x =>
      obtain ⟨limit, hlimit, rfl⟩ := Message.error_of_writeException hroot hresult
      obtain ⟨hanswers, hhistory⟩ := step_poll_of_abandoned hget hlive (habandoned _ hresult)
        (Table.get?_insert_self ..)
      have hdone : (a.complete (some e)).markReturnSent.state.isDone = a.state.finishReceived := by
        rw [Bool.eq_iff_iff, AnswerState.isDone_iff]
        simp [Answer.complete, Answer.markReturnSent]
      rw [hdone] at hhistory
      refine ⟨a, limit, ha, hlimit, hhistory, ?_⟩
      rw [hanswers, putAnswer, hdone]
      cases a.state.finishReceived with
      | true => exact Table.get?_erase_self ..
      | false => exact Table.get?_insert_self ..

/-- The poll leaves the exports alone. -/
theorem exports_step (hr : c.Raises t h e draft) : (c.step (.poll t)).2.exports = c.exports := by
  obtain ⟨guard, hget, hlive⟩ := hr.task
  obtain ⟨a, d, ha, hd, rfl⟩ := hr.reserved
  obtain ⟨hwritten, habandoned⟩ := beginReturn_of_error ha hd hr.up e
  have hbegun : (c.beginReturn h.id (.error e)).2.exports = c.exports := by
    cases hresult : ((c.messages.message d).writeException e).1 with
    | ok u => rw [hwritten hresult]
    | error x => rw [habandoned x hresult]; rfl
  obtain ⟨-, ts, heq⟩ := step_poll_of_live hget hlive
  rw [heq, run_sendReturn]
  show (c.pollReturn t h (.unbegun (.error e))).2.exports = _
  exact (exports_returnRule.pollReturn c t h (.unbegun (.error e))).trans hbegun

/-- An exception names no exports. -/
theorem handsOut_eq_nil (hr : c.Raises t h e draft) (hc : Reachable c) : c.handsOut (.poll t) = [] := by
  obtain ⟨ret, hroot, -⟩ := hr.addressed hc
  obtain ⟨guard, hget, hlive⟩ := hr.task
  obtain ⟨a, d, ha, hd, rfl⟩ := hr.reserved
  obtain ⟨hwritten, habandoned⟩ := beginReturn_of_error ha hd hr.up e
  simp only [handsOut, hget, hlive, Bool.false_eq_true, if_false]
  cases hresult : ((c.messages.message d).writeException e).1 with
  | error x =>
      rw [habandoned x hresult]
      rfl
  | ok u =>
      rw [hwritten hresult]
      show ((((c.messages.message d).writeException e).2.root.map Root.hosted).getD []).map _ = []
      rw [Message.root_of_writeException hroot hresult]
      rfl

/-- From then on the record of the call shows the error, and nothing else. -/
theorem record_after (hr : c.Raises t h e draft) (hc : Reachable c) {more : List Action} {id : AnswerId}
    {b : Answer} (hb : (c.after (.poll t :: more)).answers.get? id = some b) (hown : b.call = h.call) :
    id = h.id ∧ b.Bare ∧ b.state.resultsReady = true ∧ b.error = some e := by
  obtain ⟨guard, hget, hlive⟩ := hr.task
  obtain ⟨a, ha, hcall, -⟩ := hc.custody.found_at hr.holds
  obtain ⟨rfl, -⟩ := keptBy_after hc _ ha hb (hown.trans hcall.symm)
  have hd := hc.after (.poll t :: more)
  have hview := ((c.after (.poll t :: more)).view?_eq_some_iff h _).2 ⟨b, hb, hown, rfl⟩
  have hshows := (completed_after hc hget hlive hview).1 e rfl
  refine ⟨rfl, bare_of_barren hd hb (hshows ▸ .failed e), ?_⟩
  unfold viewOf at hshows
  cases hready : b.state.resultsReady with
  | false =>
      rw [hready, if_neg (by simp)] at hshows
      exact absurd hshows (by simp)
  | true =>
      rw [hready, if_pos rfl] at hshows
      cases herror : b.error with
      | none => simp [herror] at hshows
      | some e' =>
          simp only [herror, View.completed.injEq, Except.error.injEq] at hshows
          exact ⟨rfl, by rw [hshows]⟩

end Raises

/-- On every connection that can come about, that is what comes of a call that completes with an error. -/
theorem Reachable.raised {c : Connection} (hc : Reachable c) {t : TaskId} {h : Handle} {e : Error}
    {draft : Message} (hr : c.Raises t h e draft) (hsize : e.message.utf8ByteSize < 2 ^ 32) :
    c.Raised t h e draft := by
  obtain ⟨guard, hget, hlive⟩ := hr.task
  have hstep : Reachable (c.step (.poll t)).2 := .step _ hc
  have hsendable : c.Sendable h (.error e) ↔ draft.HasTextRoom e :=
    hr.sendable_iff.trans (Message.hasRoom_iff hsize)
  have hsilent : ¬ draft.HasTextRoom e → ∀ more, (c.after (.poll t :: more)).sends h.call = [] :=
    fun hno more => sends_of_withheld hc hget (mt hsendable.1 hno) more
  have hgoes : (∃ d, c.onItsWay (.sendReturn h (.unbegun (.error e))) = some (h.call, .waiting d)) ↔
      draft.HasTextRoom e := by
    rw [← hsendable]
    rcases onItsWay_of_unbegun hc hget with ⟨d, hway, -, hsend⟩ | ⟨hnone, hnot⟩
    · exact iff_of_true ⟨d, hway⟩ hsend
    · exact iff_of_false (by simp [hnone]) hnot
  constructor
  case goes => exact hgoes
  case told =>
    intro more m hm
    by_cases hroom : draft.HasTextRoom e
    · obtain ⟨d, hway⟩ := hgoes.2 hroom
      obtain ⟨hwaits, hsent⟩ := waits_of_begins hc hget hlive hway
      rw [← hr.root_of_onItsWay hc hway]
      exact hwaits.roots_after hstep (fun m' hm' => by rw [hsent m' hm']; rfl) more m hm
    · rw [hsilent hroom more] at hm
      exact absurd hm List.not_mem_nil
  case sent => exact fun hroom more hfin => sends_of_completed hc hget (hsendable.2 hroom) hfin
  case silent => exact hsilent
  case settled => exact fun hno => hr.settled_of_cramped hc (mt (Message.hasRoom_iff hsize).1 hno)
  case exports => exact hr.exports_step
  case unexported =>
    intro more x hin
    rcases List.mem_append.1 hin with hnow | hlater
    · rw [hr.handsOut_eq_nil hc] at hnow
      exact absurd hnow List.not_mem_nil
    · obtain ⟨before, action, rest, rfl, hout⟩ := (mem_along_iff ..).1 hlater
      refine not_mem_handsOut (hstep.after before) (fun id b hb hown => ?_) action x hout
      have hlast : (c.after (.poll t :: before)).answers.get? id = some b := hb
      exact (hr.record_after hc hlast hown).2.1
  case bare => exact fun more id b hb hown => (hr.record_after hc hb hown).2.1
  case fails =>
    intro more d b call hbooks hb hown
    have hanswers : d.answers = (c.after (.poll t :: more)).answers := congrArg Books.answers hbooks
    have hb' : (c.after (.poll t :: more)).answers.get? h.id = some b := hanswers ▸ hb
    obtain ⟨-, -, hready, herror⟩ := hr.record_after hc hb' hown
    exact forward_of_failed hb ((hc.after _).idle hb' hready) hready herror call

/-- A run under a limit in which a call has had a capability and then a struct as its results, and is to
    complete with an error. -/
def raisingUnder (limit : Nat) : List Action :=
  [.configure (.wordLimit (some limit)), .newAnswer 1 "call", .setBootstrap ⟨1, 0⟩ ⟨"door", 5⟩,
    .allocateResults ⟨1, 0⟩ ⟨1, 0⟩, .sendReturn ⟨1, 0⟩ (.error (.external .overloaded "too many")) none]

/-- The return of the call then. -/
def raisingDraft (limit : Nat) : Message where
  arena := {
    wordsUsed := 10
    wordLimit := some limit
    structs := [⟨[0], []⟩]
    caps := [some ⟨"door", 5⟩] }
  root := some (.return {
    answerId := 1
    releaseParamCaps := false
    outcome := .results { content := .struct 0 } })

/-- Of the 16 words that the limit allows in the first run ten are used, three go to the exception and three to
    its 20 bytes of text. -/
theorem raised_after_building :
    let fits := (initial {}).after (raisingUnder 16)
    let cramped := (initial {}).after (raisingUnder 15)
    let e : Error := .external .overloaded "too many"
    (fits.after [.poll 0]).sends 0 ≠ [] ∧ (cramped.after [.poll 0]).sends 0 = [] ∧
      (raisingDraft 16).HasTextRoom e ∧ ¬ (raisingDraft 15).HasTextRoom e ∧
      fits.Raised 0 ⟨1, 0⟩ e (raisingDraft 16) ∧ cramped.Raised 0 ⟨1, 0⟩ e (raisingDraft 15) := by
  intro fits cramped e
  have hfits : fits.Raises 0 ⟨1, 0⟩ e (raisingDraft 16) :=
    ⟨⟨none, rfl, rfl⟩, rfl, _, _, rfl, rfl, by decide +kernel⟩
  have hcramped : cramped.Raises 0 ⟨1, 0⟩ e (raisingDraft 15) :=
    ⟨⟨none, rfl, rfl⟩, rfl, _, _, rfl, rfl, by decide +kernel⟩
  have hsize : e.message.utf8ByteSize = 20 := by decide +kernel
  refine ⟨by decide +kernel, by decide +kernel, ?_, ?_, ?_, ?_⟩
  · simp [Message.HasTextRoom, raisingDraft, hsize]
  · simp [Message.HasTextRoom, raisingDraft, hsize]
  · exact ((Reachable.initial {}).after _).raised hfits (by rw [hsize]; decide)
  · exact ((Reachable.initial {}).after _).raised hcramped (by rw [hsize]; decide)

end Connection

end Callee
