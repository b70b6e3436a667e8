import Callee.Proofs.Freezing
import Callee.Proofs.GivingBack
import Callee.Proofs.SendingOnce
import Mathlib.Algebra.Order.BigOperators.Group.Finset

set_option autoImplicit false

/-! # What the peer reaches

A pipelined call is resolved on our side, by the results that the record of its answer keeps. The peer goes
by the message: it follows the same path through it, and finds an export where we find a capability. The two
agree (`Exports.exportAt_of_described`), and they go on agreeing: the results stand where the message stands
and nobody writes there, what is handed to the transport is that message (`Waits`), and an export keeps its
capability until its references are given back (`identityAt_after`). -/

namespace Callee

/-! ## Reaching through a message -/

/-- The export that the peer reaches by a path through the results in a message. -/
def Message.exportAt (m : Message) (path : List PathStep) : Option ExportId :=
  match m.getResults with
  | .error _ => none
  | .ok payload =>
      match m.arena.walk payload.content path with
      | .ok (.capability index) => payload.capTable[index]?.join
      | _ => none

theorem Message.hosted_of_results {m : Message} {payload : Payload} (h : m.getResults = .ok payload) :
    m.hosted = payload.capTable.filterMap id := by
  obtain ⟨⟨id, release, outcome⟩, hroot, hout⟩ := getResults_eq_ok_iff.1 h
  obtain rfl : outcome = .results payload := hout
  simp [hosted, hroot, Root.hosted, Outcome.hosted]

/-- What the peer reaches is an export that the message names. -/
theorem Message.mem_hosted_of_exportAt {m : Message} {path : List PathStep} {n : ExportId}
    (h : m.exportAt path = some n) : n ∈ m.hosted := by
  unfold exportAt at h
  split at h
  · exact absurd h (by simp)
  · next payload hresults =>
      split at h
      · rw [hosted_of_results hresults]
        exact List.mem_filterMap.2 ⟨some n, List.mem_of_getElem? (Option.join_eq_some_iff.1 h), rfl⟩
      · exact absurd h (by simp)

namespace Exports

/-- The identity of the capability that stands under an export id. -/
def identityAt (x : Exports) (id : ExportId) : Option UInt64 :=
  (x.table.get? id).map fun e => e.cap.identity

theorem identityAt_eq_some_iff (x : Exports) (id : ExportId) (k : UInt64) :
    x.identityAt id = some k ↔ ∃ e, x.table.get? id = some e ∧ e.cap.identity = k :=
  Option.map_eq_some_iff

/-- A slot is filled exactly if its descriptor names an export, and that is an export of the capability in
    it. -/
theorem slot_of_described {x : Exports} {caps : List (Option Capability)} {ds : List Descriptor}
    (h : List.Forall₂ x.Describes caps ds) (i : Nat) :
    (∀ cap, caps[i]? = some (some cap) → ∃ e, ds[i]? = some (some e) ∧ x.Names e cap) ∧
      ∀ e, ds[i]? = some (some e) → ∃ cap, caps[i]? = some (some cap) ∧ x.Names e cap := by
  induction h generalizing i with
  | nil => simp
  | @cons slot d caps ds hd _ ih =>
      cases i with
      | succ i => exact ih i
      | zero =>
          simp only [List.getElem?_cons_zero, Option.some.injEq]
          cases slot with
          | none =>
              cases d with
              | none => simp
              | some e => exact hd.elim
          | some cap =>
              cases d with
              | none => exact hd.elim
              | some e =>
                  refine ⟨fun _ hcap => ⟨e, rfl, ?_⟩, fun _ he => ⟨cap, rfl, ?_⟩⟩
                  · obtain rfl := Option.some.inj hcap
                    exact hd
                  · obtain rfl := Option.some.inj he
                    exact hd

/-- Results that are described: a path leads to a capability on our side exactly if it leads the peer to an
    export of one with the same identity. -/
theorem exportAt_of_described {x : Exports} {m : Message} {payload : Payload}
    (hresults : m.getResults = .ok payload) (h : List.Forall₂ x.Describes m.arena.caps payload.capTable)
    (path : List PathStep) (k : UInt64) :
    (∃ cap, m.arena.resolve payload.content path = .ok cap ∧ cap.identity = k) ↔
      ∃ e, m.exportAt path = some e ∧ x.identityAt e = some k := by
  unfold Message.exportAt Arena.resolve
  rw [hresults]
  dsimp only
  cases hwalk : m.arena.walk payload.content path with
  | error e => simp
  | ok q =>
      cases q with
      | null => simp [Arena.target]
      | struct s => simp [Arena.target]
      | capability i =>
          obtain ⟨hslot, hnamed⟩ := slot_of_described h i
          simp only [Arena.target, Arena.capability?, identityAt_eq_some_iff]
          constructor
          · rintro ⟨cap, hcap, rfl⟩
            have hfilled : m.arena.caps[i]? = some (some cap) := by
              cases hget : m.arena.caps[i]?.join with
              | none => simp [hget] at hcap
              | some filled =>
                  rw [hget] at hcap
                  exact Except.ok.inj hcap ▸ Option.join_eq_some_iff.1 hget
            obtain ⟨e, he, hnames⟩ := hslot cap hfilled
            exact ⟨e, by rw [he]; rfl, hnames⟩
          · rintro ⟨e, he, exp, hexp, rfl⟩
            obtain ⟨cap, hcap, exp', hexp', hidentity⟩ := hnamed e (Option.join_eq_some_iff.1 he)
            obtain rfl := Option.some.inj (hexp.symm.trans hexp')
            exact ⟨cap, by rw [hcap]; rfl, hidentity.symm⟩

/-- What is written out is described, if the descriptors can be written. -/
theorem described_writeResults {x : Exports} (hx : x.WF) {m : Message} {ids : List ExportId}
    (hids : (x.writeResults m false).ids = some ids) : ∃ payload,
      (x.writeResults m false).message.getResults = .ok payload ∧
        List.Forall₂ (x.writeResults m false).exports.Describes
          (x.writeResults m false).message.arena.caps payload.capTable := by
  rcases x.writeDescriptors_cases m.ensureResults.1 with
    ⟨e, -, heq⟩ | ⟨ret, payload, words, hroot, hout, heq⟩
  · simp [writeResults, heq] at hids
  · simp only [writeResults, heq, Bool.false_eq_true, if_false]
    exact ⟨_, rfl, (x.describe_spec hx _).2⟩

end Exports

namespace Connection

/-! ## Completing with results -/

/-- What the beginning of a return makes of results on a connection that is up. -/
theorem beginReturn_of_results {c : Connection} {id : AnswerId} {a : Answer} {e : Envelope}
    (ha : c.answers.get? id = some a) (he : a.message = some e) (hup : c.isDown = false) :
    let written := c.exports.writeResults (c.messages.message e) false
    let sent : Envelope := { e with root := written.message.root }
    (c.beginReturn id (.ok ())).1 = some ⟨some sent, a.state.finishReceived⟩ ∧
      (c.beginReturn id (.ok ())).2.exports = written.exports ∧
      (c.beginReturn id (.ok ())).2.messages = (c.messages.put e written.message).2 ∧
      (c.beginReturn id (.ok ())).2.answers = c.answers.insert id { a.complete none with
        exports := written.ids.getD a.exports
        results := sent.results? } := by
  simp only [beginReturn, ha, he, returnResults, hup, reportAll_shape, Bool.false_eq_true, if_false]
  exact ⟨rfl, trivial, trivial, rfl⟩

/-- Polling a task begins the return of a call with its results. The connection is up, the descriptors of
    the results can be written, and `e` is the envelope that goes to the sender. -/
structure SendsResults (c : Connection) (t : TaskId) (h : Handle) (e : Envelope) : Prop where
  task : ∃ guard, c.tasks.get? t = some ⟨.sendReturn h (.unbegun (.ok ())), guard⟩ ∧
    guard.any c.isCanceled = false
  up : c.link = .up
  begins : ∃ finishReceived, (c.beginReturn h.id (.ok ())).1 = some ⟨some e, finishReceived⟩
  described : ∃ a draft ids, c.answers.get? h.id = some a ∧ a.message = some draft ∧
    (c.exports.writeResults (c.messages.message draft) false).ids = some ids

/-- What such a beginning leaves: the record of the call reads its results where the message stands, and the
    message describes them. -/
structure Retains (c : Connection) (h : Handle) (e : Envelope) (a b : Answer) (payload : Payload)
    (c' : Connection) : Prop where
  found : c.answers.get? h.id = some a
  call : a.call = h.call
  draft : ∃ d, a.message = some d ∧ e.arena = d.arena
  next : c'.messages.next = c.messages.next
  nextCall : c'.nextCall = c.nextCall
  answers : c'.answers = c.answers.insert h.id b
  own : b.call = h.call
  parted : b.message = none
  ready : b.state.resultsReady = true
  error : b.error = none
  results : b.results = some ⟨e.arena, payload.content⟩
  holds : (c'.messages.message e).getResults = .ok payload
  described : List.Forall₂ c'.exports.Describes (c'.messages.message e).arena.caps payload.capTable

namespace SendsResults

variable {c : Connection} {t : TaskId} {h : Handle} {e : Envelope}

theorem holds (hs : c.SendsResults t h e) : c.books.Holds (.task t) h .building := by
  obtain ⟨guard, hget, -⟩ := hs.task
  exact Books.taskOwes_of_get? (b := c.books) hget

theorem transfer (hs : c.SendsResults t h e) :
    c.transfer (.poll t) = (c.beginReturn h.id (.ok ())).2 := by
  obtain ⟨guard, hget, hlive⟩ := hs.task
  simp [Connection.transfer, hget, hlive, begun]

theorem retains (hs : c.SendsResults t h e) (hc : Reachable c) :
    ∃ a b payload, Retains c h e a b payload (c.beginReturn h.id (.ok ())).2 := by
  obtain ⟨a, draft, ids, ha, hdraft, hids⟩ := hs.described
  obtain ⟨a', ha', hcall, -⟩ := hc.custody.found_at hs.holds
  obtain rfl : a = a' := Option.some.inj (ha.symm.trans ha')
  obtain ⟨hbegun, hexports, hmessages, hanswers⟩ :=
    beginReturn_of_results ha hdraft ((isDown_eq_false_iff c).2 hs.up)
  obtain ⟨f, hf⟩ := hs.begins
  have hsent := (BegunReturn.mk.inj (Option.some.inj (hbegun.symm.trans hf))).1
  obtain rfl := Option.some.inj hsent
  obtain ⟨begun, ms, x, hs', p, a', heq, -, -, -⟩ := c.beginReturn_shape (.ok ()) ha
  obtain ⟨payload, hpayload, hdescribed⟩ := Exports.described_writeResults hc.reckoning.exports hids
  have hmessage : (c.beginReturn h.id (.ok ())).2.messages.message
      { draft with root := (c.exports.writeResults (c.messages.message draft) false).message.root } =
      (c.exports.writeResults (c.messages.message draft) false).message := by
    rw [hmessages]
    exact MessageStore.message_put ..
  obtain ⟨ret, hroot, hout⟩ := Message.getResults_eq_ok_iff.1 hpayload
  refine ⟨a, _, payload, ha, hcall, ⟨draft, hdraft, rfl⟩, by rw [hmessages]; rfl, by rw [heq], hanswers,
    hcall, rfl, rfl, rfl, ?_, hmessage ▸ hpayload, ?_⟩
  · exact Envelope.results?_of_root hroot hout
  · rw [hmessage, hexports]
    exact hdescribed

end SendsResults

/-! ## Where the results stand -/

/-- The arena that an action writes to through a handle to one of its structs, if it does. -/
def writes (c : Connection) : Action → List ArenaId
  | .edit ref change =>
      match (c.messages.edit ref change).1 with
      | .ok _ => [ref.arena]
      | .error _ => []
  | _ => []

/-- A sealed arena is as it was as long as nobody writes to it through a handle. -/
theorem sealed_after {c : Connection} {r : ArenaId} (hsealed : c.Sealed r) (actions : List Action)
    (hunwritten : r ∉ along writes c actions) :
    (c.after actions).Sealed r ∧ (c.after actions).messages.arena r = c.messages.arena r := by
  induction actions generalizing c with
  | nil => exact ⟨hsealed, rfl⟩
  | cons action rest ih =>
      obtain ⟨hnow, hlater⟩ := not_or.1 (List.mem_append.not.1 hunwritten)
      obtain ⟨hstep, hsame | ⟨index, change, child, rfl, hedit⟩⟩ := sealed_step hsealed action
      · obtain ⟨hend, heq⟩ := ih hstep hlater
        exact ⟨hend, heq.trans hsame⟩
      · exact absurd (by simp [writes, MessageStore.edit, hedit]) hnow

namespace Retains

variable {c c' : Connection} {h : Handle} {e : Envelope} {a b : Answer} {payload : Payload}

/-- The message that goes to the sender is in nobody's hands but the sender's. -/
theorem isSealed (hr : Retains c h e a b payload c') (hc : Reachable c) : c'.Sealed e.arena := by
  obtain ⟨d, hd, harena⟩ := hr.draft
  have hstored := hc.stored
  refine ⟨?_, fun {j x e'} hx he' hsame => ?_⟩
  · rw [hr.next, harena]
    exact (hstored.opened hr.found hd).1
  · rcases Table.get?_of_replaced (Or.inl hr.answers) hx with ⟨-, rfl⟩ | ⟨hne, hx⟩
    · exact absurd (hr.parted.symm.trans he') (by simp)
    · exact hne (hstored.apart hr.found hx hd he' (hsame.trans harena))

/-- A later record of the call is what became of the one that it left. -/
theorem fixed (hr : Retains c h e a b payload c') (hc : Reachable c) {d : Connection}
    (hfixed : c'.Descends Fixed d) {id : AnswerId} {x : Answer} (hx : d.answers.get? id = some x)
    (hcall : x.call = h.call) : Fixed b x := by
  rcases hfixed.2 id x hx with ⟨y, hy, hyx⟩ | hnew
  · have hcall' : y.call = a.call := (hyx.call.symm.trans hcall).trans hr.call.symm
    rcases Table.get?_of_replaced (Or.inl hr.answers) hy with ⟨-, rfl⟩ | ⟨hne, hy⟩
    · exact hyx
    · exact absurd (hc.record_unique hr.found hy hcall').1 hne
  · rw [hr.nextCall, hcall, ← hr.call] at hnew
    exact absurd (hc.call_lt hr.found) (Nat.not_lt_of_le hnew)

end Retains

/-! ## What is handed to the transport -/

/-- The return of a call that has completed: if one waits for the way out, it is the one in an
    envelope. -/
structure Waits (c : Connection) (call : CallId) (e : Envelope) : Prop where
  closed : c.Closed call
  queued : ∀ {t h e'}, c.QueuedAt t h e' → h.call = call → e' = e

namespace Waits

variable {c : Connection} {call : CallId} {e : Envelope}

/-- What has a return of the call on its way has had it waiting. -/
theorem of_onItsWay (hw : c.Waits call e) (hc : Reachable c) {t : TaskId} {work : Work}
    {guard : Option Token} {e' : Envelope} (hget : c.tasks.get? t = some ⟨work, guard⟩)
    (hway : c.onItsWay work = some (call, .waiting e')) : e' = e ∧ c.begun work = c := by
  rcases onItsWay_cases hway with ⟨h, f, rfl, hcall⟩ | ⟨h, result, d, rfl, hcall, -, -⟩
  · exact ⟨hw.queued ⟨f, guard, hget⟩ hcall, rfl⟩
  · -- the call has completed, so no other completion of it can begin
    have hold : c.books.Holds (.task t) h .building := Books.taskOwes_of_get? (b := c.books) hget
    exact absurd (hcall ▸ hw.closed) (not_closed_of_building hc hold)

theorem step (hw : c.Waits call e) (hc : Reachable c) (action : Action) :
    (c.step action).2.Waits call e ∧ ∀ m, (call, m) ∈ c.handsOver action → m = c.messages.message e := by
  refine ⟨⟨hw.closed.after hc [action], ?_⟩, fun m hm => ?_⟩
  · rintro t h e' ⟨f, guard, hget⟩ hcall
    cases c.taskStep action hget with
    | kept before idle => exact hw.queued ⟨f, guard, before⟩ hcall
    | spawned number fresh => exact fresh.elim
    | @ran before work isPoll found live left task =>
        obtain rfl := (Task.mk.inj task).1
        obtain ⟨work, guard'⟩ := before
        obtain ⟨-, hway, -⟩ := waiting_of_run left
        exact (hw.of_onItsWay hc found (hcall ▸ hway)).1
  · obtain ⟨t, ⟨work, guard⟩, e', rfl, hget, -, hway, -, rfl⟩ := (c.mem_handsOver_iff _ _ _).1 hm
    obtain ⟨rfl, hbegun⟩ := hw.of_onItsWay hc hget hway
    dsimp only
    rw [hbegun]

/-- Over a run in which nobody writes to it, the return that is handed over is the one that waits. -/
theorem sends_after (hw : c.Waits call e) (hc : Reachable c) (hsealed : c.Sealed e.arena)
    (hsent : ∀ m ∈ c.sends call, m = c.messages.message e) {actions : List Action}
    (hunwritten : e.arena ∉ along writes c actions) :
    ∀ m ∈ (c.after actions).sends call, m = c.messages.message e := by
  induction actions generalizing c with
  | nil => exact hsent
  | cons action rest ih =>
      obtain ⟨hnow, hlater⟩ := not_or.1 (List.mem_append.not.1 hunwritten)
      obtain ⟨hstep, hsame⟩ := sealed_after hsealed [action] (by simpa [along] using hnow)
      obtain ⟨hwaits, hhanded⟩ := hw.step hc action
      have hmessage : (c.step action).2.messages.message e = c.messages.message e := by
        unfold MessageStore.message
        rw [show (c.step action).2.messages.arena e.arena = c.messages.arena e.arena from hsame]
      rw [← hmessage]
      refine ih hwaits (.step action hc) hstep (fun m hm => ?_) hlater
      rw [hmessage]
      rcases (c.mem_sends_step_iff action call m).1 hm with hin | hbefore
      · exact hhanded m hin
      · exact hsent m hbefore

/-- Whoever writes to it, the return that is handed over has the root of the one that waits. -/
theorem roots_after (hw : c.Waits call e) (hc : Reachable c) (hsent : ∀ m ∈ c.sends call, m.root = e.root)
    (actions : List Action) : ∀ m ∈ (c.after actions).sends call, m.root = e.root := by
  induction actions generalizing c with
  | nil => exact hsent
  | cons action rest ih =>
      obtain ⟨hwaits, hhanded⟩ := hw.step hc action
      refine ih hwaits (.step action hc) fun m hm => ?_
      rcases (c.mem_sends_step_iff action call m).1 hm with hin | hbefore
      · rw [hhanded m hin]
        rfl
      · exact hsent m hbefore

end Waits

/-- The poll that begins a return, and finds one to go on with, leaves it with the sender. -/
theorem waits_of_begins {c : Connection} (hc : Reachable c) {t : TaskId} {h : Handle}
    {result : Except Error Unit} {guard : Option Token} {e : Envelope}
    (hget : c.tasks.get? t = some ⟨.sendReturn h (.unbegun result), guard⟩)
    (hlive : guard.any c.isCanceled = false)
    (hbegins : c.onItsWay (.sendReturn h (.unbegun result)) = some (h.call, .waiting e)) :
    (c.step (.poll t)).2.Waits h.call e ∧ ∀ m ∈ (c.step (.poll t)).2.sends h.call,
      m = (c.beginReturn h.id result).2.messages.message e := by
  have hold : c.books.Holds (.task t) h .building := Books.taskOwes_of_get? (b := c.books) hget
  have hway : ∀ {work guard' call e'}, c.tasks.get? t = some ⟨work, guard'⟩ →
      c.onItsWay work = some (call, .waiting e') →
        work = .sendReturn h (.unbegun result) ∧ e' = e := by
    intro work guard' call e' hget' hway
    obtain ⟨rfl, -⟩ := Task.mk.inj (Option.some.inj (hget'.symm.trans hget))
    obtain ⟨-, heq⟩ := Prod.mk.inj (Option.some.inj (hway.symm.trans hbegins))
    exact ⟨rfl, SendStage.waiting.inj heq⟩
  refine ⟨⟨closed_of_poll hc hget hlive rfl, ?_⟩, fun m hm => ?_⟩
  · rintro u k e' ⟨f', guard', hget'⟩ hsame
    cases c.taskStep _ hget' with
    | kept before idle =>
        -- nobody else holds the return of the call
        obtain ⟨f'', hother⟩ := QueuedAt.holds ⟨f', guard', before⟩
        have heq := (hc.holds_unique hold hother hsame).1
        obtain rfl := Holder.task.inj heq
        exact absurd rfl idle
    | spawned number fresh => exact fresh.elim
    | @ran before work isPoll found live left task =>
        obtain rfl := Action.poll.inj isPoll
        obtain rfl := (Task.mk.inj task).1
        obtain ⟨work, guard''⟩ := before
        obtain ⟨-, hwaiting, -⟩ := waiting_of_run left
        exact (hway found hwaiting).2
  · rcases (c.mem_sends_step_iff _ h.call m).1 hm with hin | hbefore
    · obtain ⟨u, ⟨work, guard'⟩, e', haction, hget', -, hwaiting, -, rfl⟩ := (c.mem_handsOver_iff _ _ _).1 hin
      obtain rfl := Action.poll.inj haction
      obtain ⟨rfl, rfl⟩ := hway hget' hwaiting
      rfl
    · rw [sends_of_building hc hold] at hbefore
      exact absurd hbefore List.not_mem_nil

theorem SendsResults.waits {c : Connection} {t : TaskId} {h : Handle} {e : Envelope}
    (hs : c.SendsResults t h e) (hc : Reachable c) :
    (c.step (.poll t)).2.Waits h.call e ∧ ∀ m ∈ (c.step (.poll t)).2.sends h.call,
      m = (c.beginReturn h.id (.ok ())).2.messages.message e := by
  obtain ⟨guard, hget, hlive⟩ := hs.task
  obtain ⟨f, hbegun⟩ := hs.begins
  exact waits_of_begins hc hget hlive (by simp [onItsWay, hbegun])

/-! ## What the exports keep -/

theorem Reachable.exists_run {c : Connection} (hc : Reachable c) :
    ∃ options actions, c = (Connection.initial options).after actions := by
  induction hc with
  | initial options => exact ⟨options, [], rfl⟩
  | @step c action _ ih =>
      obtain ⟨options, actions, rfl⟩ := ih
      exact ⟨options, actions ++ [action], by rw [after_append]; rfl⟩

theorem asksBackBegun_subset (c : Connection) (action : Action) :
    c.asksBackBegun action ⊆ c.asksBack action := by
  intro call hin
  obtain ⟨id, a, rfl, ha, -, rfl⟩ := (c.mem_asksBackBegun_iff action call).1 hin
  simp [asksBack, ha]

theorem along_subset {β : Type} {f g : Connection → Action → List β} (h : ∀ c action, f c action ⊆ g c action)
    (c : Connection) (actions : List Action) : along f c actions ⊆ along g c actions := by
  induction actions generalizing c with
  | nil => exact List.Subset.refl _
  | cons action rest ih =>
      intro x hx
      rcases List.mem_append.1 hx with hnow | hlater
      · exact List.mem_append_left _ (h c action hnow)
      · exact List.mem_append_right _ (ih _ hlater)

/-- A reference that was handed out for a call counts as long as no finish has asked for it. -/
theorem refs_pos_of_handsOut {options : Options} {before more : List Action} {action : Action}
    {call : CallId} {x : ExportId}
    (hout : (call, x) ∈ ((initial options).after before).handsOut action)
    (hkept : call ∉ along asksBackBegun (initial options) (before ++ action :: more))
    (hup : ((initial options).after (before ++ action :: more)).link = .up) :
    0 < ((initial options).after (before ++ action :: more)).exports.refs x := by
  have hin := (mem_along_iff handsOut (initial options) _ _).2 ⟨before, action, more, rfl, hout⟩
  have hpos := List.count_pos_iff.2 hin
  have haccounted := accounted_after options (before ++ action :: more)
  have hlt := haccounted.call_lt.1 (call, x) hin
  rw [refs_eq_sum_outstanding options _ hup x]
  refine Nat.lt_of_lt_of_le ?_ (Finset.single_le_sum (fun _ _ => Nat.zero_le _) (Finset.mem_range.2 hlt))
  unfold outstanding
  rw [haccounted.kept call hkept x]
  exact hpos

namespace SendsResults

variable {c : Connection} {t : TaskId} {h : Handle} {e : Envelope}

/-- The exports that the message names are those that are handed out. -/
theorem handsOut_eq (hs : c.SendsResults t h e) :
    c.handsOut (.poll t) = ((c.beginReturn h.id (.ok ())).2.messages.message e).hosted.map fun x =>
      (h.call, x) := by
  obtain ⟨guard, hget, hlive⟩ := hs.task
  obtain ⟨f, hbegun⟩ := hs.begins
  simp only [handsOut, hget, hlive, Bool.false_eq_true, if_false, hbegun]
  rfl

/-- An export that the message names is there until a finish asks for the references of the call, or the
    connection comes to its end. -/
theorem exists_export_after (hs : c.SendsResults t h e) (hc : Reachable c) {x : ExportId}
    (hx : x ∈ ((c.beginReturn h.id (.ok ())).2.messages.message e).hosted) {actions : List Action}
    (hkept : h.call ∉ along asksBack (c.step (.poll t)).2 actions)
    (hup : ((c.step (.poll t)).2.after actions).link = .up) :
    ∃ exp, ((c.step (.poll t)).2.after actions).exports.table.get? x = some exp := by
  have hreachable : Reachable ((c.step (.poll t)).2.after actions) :=
    (Reachable.step (.poll t) hc).after actions
  have hout : (h.call, x) ∈ c.handsOut (.poll t) := by
    rw [hs.handsOut_eq]
    exact List.mem_map.2 ⟨x, hx, rfl⟩
  obtain ⟨a, draft, ids, ha, hdraft, -⟩ := hs.described
  obtain ⟨a', ha', hcall, -⟩ := hc.custody.found_at hs.holds
  obtain rfl : a = a' := Option.some.inj (ha.symm.trans ha')
  obtain ⟨options, before, rfl⟩ := hc.exists_run
  have hrun : (((initial options).after before).step (.poll t)).2.after actions =
      (initial options).after (before ++ .poll t :: actions) := by
    rw [after_append]
    rfl
  have hunasked : h.call ∉ along asksBackBegun (initial options) (before ++ .poll t :: actions) := by
    rw [along_append, List.mem_append]
    rintro (hasked | hasked)
    · -- the record still held its return
      have hspent := (accounted_after options before).spent h.id a ha (hcall ▸ hasked)
      exact absurd (hspent.symm.trans hdraft) (by simp)
    · exact hkept (by simpa [along, asksBack] using along_subset asksBackBegun_subset _ _ hasked)
  rw [hrun] at hup hreachable ⊢
  exact (Exports.refs_pos_iff hreachable.reckoning.exports x).1 (refs_pos_of_handsOut hout hunasked hup)

/-- It keeps its capability. -/
theorem identityAt_after (hs : c.SendsResults t h e) (hc : Reachable c) {x : ExportId} {k : UInt64}
    (hx : x ∈ ((c.beginReturn h.id (.ok ())).2.messages.message e).hosted)
    (hk : (c.beginReturn h.id (.ok ())).2.exports.identityAt x = some k) {actions : List Action}
    (hkept : h.call ∉ along asksBack (c.step (.poll t)).2 actions)
    (hup : ((c.step (.poll t)).2.after actions).link = .up) :
    ((c.step (.poll t)).2.after actions).exports.identityAt x = some k := by
  induction actions using List.reverseRecOn with
  | nil =>
      obtain ⟨-, hsame⟩ := (exports_rule.step c (.poll t)).keeps hup
      rw [hs.transfer] at hsame
      show (c.step (.poll t)).2.exports.identityAt x = some k
      rw [hsame]
      exact hk
  | append_singleton actions action ih =>
      obtain ⟨exp', hexp'⟩ := hs.exists_export_after hc hx hkept hup
      have hd := (Reachable.step (.poll t) hc).after actions
      rw [along_append] at hkept
      rw [after_append] at hup hexp' ⊢
      have hearlier := ih (fun hin => hkept (List.mem_append_left _ hin)) (up_of_after hd [action] hup)
      obtain ⟨exp, hexp, rfl⟩ := (Exports.identityAt_eq_some_iff _ x k).1 hearlier
      rw [Exports.identityAt_eq_some_iff]
      exact ⟨exp', hexp', congrArg Capability.identity (cap_step hd.reckoning action hup hexp hexp')⟩

end SendsResults

/-! ## All connections -/

/-- The results of a call and the message that says them agree. The call has completed in `c`; the message
    `m` stands in the arena `r`, and `x` are the exports right after its results were written out. -/
structure AgreesWithWire (h : Handle) (r : ArenaId) (m : Message) (x : Exports) (c : Connection) :
    Prop where
  /-- While nobody writes to the message through a handle, a path resolves to a capability exactly if it leads
      the peer to an export of a capability with the same identity. -/
  resolves : ∀ actions id a p k, r ∉ along writes c actions →
    (c.after actions).answers.get? id = some a → a.call = h.call →
    (((c.after actions).forward id p).1.map Forwarded.identity? = .ok (some k) ↔
      ∃ n, m.exportAt p.path = some n ∧ x.identityAt n = some k)
  /-- The message that the transport is handed for the call is this one. -/
  handed : ∀ actions, r ∉ along writes c actions → ∀ m' ∈ (c.after actions).sends h.call, m' = m
  /-- What the peer reaches is an export that the message names, and all of those are exports of a
      capability. -/
  reached : ∀ path n, m.exportAt path = some n → n ∈ m.hosted
  named : ∀ n ∈ m.hosted, ∃ k, x.identityAt n = some k
  /-- They keep it until a finish asks for the references of the call, or the connection comes to its end. -/
  kept : ∀ actions n k, n ∈ m.hosted → x.identityAt n = some k → h.call ∉ along asksBack c actions →
    (c.after actions).link = .up → (c.after actions).exports.identityAt n = some k

/-- What pipelined calls are resolved to is what the peer was told. -/
theorem SendsResults.agreesWithWire {c : Connection} {t : TaskId} {h : Handle} {e : Envelope}
    (hs : c.SendsResults t h e) (hc : Reachable c) :
    AgreesWithWire h e.arena ((c.beginReturn h.id (.ok ())).2.messages.message e)
      (c.beginReturn h.id (.ok ())).2.exports (c.step (.poll t)).2 := by
  obtain ⟨a, b, payload, hretains⟩ := hs.retains hc
  have hnext : Reachable (c.step (.poll t)).2 := .step (.poll t) hc
  have hspares : Spares e.arena (c.transfer (.poll t)) (c.step (.poll t)).2 :=
    (spares_rule e.arena).step_of_ne ⟨fun _ _ => trivial, fun _ _ _ _ _ => trivial⟩ (by simp) (by simp)
  obtain ⟨hsealed, harena⟩ := hspares (hs.transfer ▸ hretains.isSealed hc)
  have hfixed : (c.beginReturn h.id (.ok ())).2.Descends Fixed (c.step (.poll t)).2 :=
    hs.transfer ▸ fixed_rule.step_of_ne hc.givesUp (by simp) (by simp)
  obtain ⟨hwaits, hsent⟩ := hs.waits hc
  have hmessage : (c.step (.poll t)).2.messages.message e =
      (c.beginReturn h.id (.ok ())).2.messages.message e := by
    unfold MessageStore.message
    rw [harena, hs.transfer]
  refine ⟨fun actions id x p k hunwritten hx hcall => ?_, fun actions hunwritten m' hm' => ?_,
    fun path n => Message.mem_hosted_of_exportAt, fun n hn => ?_,
    fun actions n k hn hk hkept hup => hs.identityAt_after hc hn hk hkept hup⟩
  · have hlater := hnext.after actions
    have hdescends := hfixed.trans (fixed_after hnext actions) Fixed.call Fixed.trans
    have hbx := hretains.fixed hc hdescends hx hcall
    have hsettled : ((c.step (.poll t)).2.after actions).settled id x p.path =
        ((c.beginReturn h.id (.ok ())).2.messages.message e).arena.resolve payload.content p.path := by
      simp only [settled, hbx.error hretains.ready, hretains.error, hbx.results hretains.ready,
        hretains.results, MessageStore.resolve, (sealed_after hsealed actions hunwritten).2, harena,
        hs.transfer, MessageStore.message]
    rw [forward_of_ready hlater hx (hbx.ready hretains.ready), hsettled,
      ← Exports.exportAt_of_described hretains.holds hretains.described p.path k]
    cases ((c.beginReturn h.id (.ok ())).2.messages.message e).arena.resolve payload.content p.path with
    | error err => simp [Except.map]
    | ok cap => simp [Except.map, Forwarded.identity?]
  · rw [← hmessage]
    exact hwaits.sends_after hnext hsealed (hmessage ▸ hsent) hunwritten m' hm'
  · rw [Message.hosted_of_results hretains.holds] at hn
    obtain ⟨d, hd, rfl⟩ := List.mem_filterMap.1 hn
    obtain ⟨i, hi⟩ := List.mem_iff_getElem?.1 hd
    obtain ⟨cap, -, exp, hexp, hidentity⟩ := (Exports.slot_of_described hretains.described i).2 n hi
    exact ⟨cap.identity, (Exports.identityAt_eq_some_iff _ n _).2 ⟨exp, hexp, hidentity⟩⟩

/-- A run in which the results of a call are replaced: first they are a capability, then a struct with that
    capability and another one in its fields. -/
def replacedResults : List Action :=
  [.newAnswer 1 "call", .setBootstrap ⟨1, 0⟩ ⟨"object", 5⟩, .allocateResults ⟨1, 0⟩ ⟨0, 2⟩,
    .edit ⟨0, 0⟩ (.setCapability 0 ⟨"same object", 5⟩), .edit ⟨0, 0⟩ (.setCapability 1 ⟨"other", 6⟩),
    .sendReturn ⟨1, 0⟩ (.ok ()) none]

/-- The return that says these results. -/
def replacedReturn : Envelope where
  arena := 0
  root := some (.return {
    answerId := 1
    releaseParamCaps := false
    outcome := .results { content := .struct 0, capTable := [some 0, some 0, some 1] } })

theorem agreesWithWire_after_replacing :
    let c := (initial {}).after replacedResults
    let c' := (c.beginReturn 1 (.ok ())).2
    c.SendsResults 0 ⟨1, 0⟩ replacedReturn ∧
      (c'.messages.message replacedReturn).exportAt [.field 1] = some 1 ∧
      c'.exports.identityAt 1 = some 6 ∧
      AgreesWithWire ⟨1, 0⟩ 0 (c'.messages.message replacedReturn) c'.exports (c.step (.poll 0)).2 := by
  have hc := (Reachable.initial {}).after replacedResults
  have hs : ((initial {}).after replacedResults).SendsResults 0 ⟨1, 0⟩ replacedReturn :=
    { task := ⟨none, rfl, rfl⟩
      up := rfl
      begins := ⟨false, rfl⟩
      described := ⟨_, _, [0, 0, 1], rfl, rfl, by decide +kernel⟩ }
  exact ⟨hs, by decide +kernel, by decide +kernel, hs.agreesWithWire hc⟩

end Connection

end Callee
