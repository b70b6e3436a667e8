import Callee.Proofs.Sealing
import Callee.Proofs.Unsent

set_option autoImplicit false

/-! # Where nothing fails

On a connection that is up, whose transport fails nothing and sets no limit, there is always room in a
message, and every call that is still running has its return (`Faultless`). What is done there reports
nothing, and leaves things so (`Proceeds`): a call that comes in has its return reserved, a completion that
begins has its return to go on with, and a return on its way either waits or is accepted, which is when the
call is settled (`pollReturn_proceeds`). -/

namespace Callee

/-! ## Messages without a limit -/

theorem Arena.charge_of_unlimited {a : Arena} (h : a.wordLimit = none) (words : Nat) :
    a.charge words = .ok { a with wordsUsed := a.wordsUsed + words } := by
  simp [charge, h]

theorem Arena.allocate_of_unlimited {a : Arena} (h : a.wordLimit = none) (words : UInt32) :
    a.allocate words = .ok { a with wordsUsed := a.wordsUsed + words.toNat } :=
  charge_of_unlimited h words.toNat

namespace Message

theorem startReturn_of_unlimited {m : Message} (h : m.arena.wordLimit = none) (id : AnswerId) :
    ∃ m', m.startReturn id = .ok m' := by
  rw [startReturn_eq, Arena.allocate_of_unlimited h]
  exact ⟨_, rfl⟩

theorem hasRoom_of_unlimited {m : Message} (h : m.arena.wordLimit = none) (e : Error) : m.HasRoom e :=
  fun _ hlimit => absurd (h.symm.trans hlimit) (by simp)

/-- There is room for empty results in a return. -/
theorem ensureResults_of_unlimited {m : Message} (h : m.arena.wordLimit = none) {ret : Return}
    (hroot : m.root = some (.return ret)) :
    m.ensureResults.2 = [] ∧ ∃ payload, m.ensureResults.1.getResults = .ok payload := by
  unfold ensureResults
  cases hresults : m.getResults with
  | ok payload => exact ⟨rfl, payload, hresults⟩
  | error e =>
      rw [initResults_of_root hroot, Arena.allocate_of_unlimited h]
      exact ⟨rfl, {}, rfl⟩

/-- There is room for descriptors in results. -/
theorem initCapTable_of_unlimited {m : Message} (h : m.arena.wordLimit = none) {payload : Payload}
    (hresults : m.getResults = .ok payload) (len : UInt32) : (m.initCapTable len).value.1 = .ok () := by
  unfold initCapTable
  rw [Arena.charge_of_unlimited h]
  dsimp only
  split
  · next e hfill =>
      -- the charge leaves the results in place
      obtain ⟨m', hfilled⟩ := modifyResults_of_getResults (m := { m with
        arena := { m.arena with wordsUsed := m.arena.wordsUsed + capTableWords len } }) hresults _
      exact absurd (hfill.symm.trans hfilled) (by simp)
  · rfl

end Message

theorem Exports.errors_of_unlimited {x : Exports} {m : Message} (h : m.arena.wordLimit = none)
    {ret : Return} (hroot : m.root = some (.return ret)) : (x.writeResults m false).errors = [] := by
  obtain ⟨hmissed, payload, hresults⟩ := Message.ensureResults_of_unlimited h hroot
  have hlimit := ((Message.builds_rule.ensureResults m).arena.limit).trans h
  have hroom := Message.initCapTable_of_unlimited hlimit hresults
    m.ensureResults.1.arena.caps.length.toUInt32
  rcases x.writeDescriptors_cases m.ensureResults.1 with
    ⟨e, hfull, -⟩ | ⟨ret, payload, words, -, -, heq⟩
  · exact absurd (hfull.symm.trans hroom) (by simp)
  · simp only [writeResults, heq, Bool.false_eq_true, if_false]
    exact hmissed

/-- No message has a limit. -/
def MessageStore.Unlimited (s : MessageStore) : Prop := ∀ r, (s.arena r).wordLimit = none

namespace MessageStore

theorem unlimited_putArena {s : MessageStore} (hs : s.Unlimited) {r : ArenaId} {a : Arena}
    (h : (s.arena r).Grows a) : (s.putArena r a).Unlimited := by
  intro j
  by_cases hj : j = r
  · subst hj
    rw [arena_putArena_self]
    exact h.limit.trans (hs j)
  · rw [arena_putArena_of_ne s hj]
    exact hs j

theorem unlimited_put {s : MessageStore} (hs : s.Unlimited) {e : Envelope} {m : Message}
    (h : (s.message e).Builds m) : (s.put e m).2.Unlimited :=
  unlimited_putArena hs h.arena

theorem unlimited_create {s : MessageStore} (hs : s.Unlimited) : (s.create none).2.Unlimited := by
  intro r
  rw [arena_create]
  split
  · rfl
  · exact hs r

theorem unlimited_edit {s : MessageStore} (hs : s.Unlimited) (ref : StructRef) (change : StructEdit) :
    (s.edit ref change).2.Unlimited := by
  unfold edit
  split
  · exact hs
  · next child a h => exact unlimited_putArena hs (Arena.edited h).grows

end MessageStore

/-! ## Connections on which nothing fails -/

/-- A transport that does what it is asked to, sooner or later, and sets no limit. -/
structure Transport.Faultless (x : Transport) : Prop where
  wordLimit : x.wordLimit = none
  reservations : x.failReservations = none
  sends : x.failSends = none

/-- The settings of the transport stay, and it accepts nothing. -/
structure Transport.Rests (x x' : Transport) : Prop where
  faultless : x.Faultless → x'.Faultless
  accepted : x'.accepted = x.accepted

theorem Transport.Rests.refl {x : Transport} : x.Rests x := ⟨id, rfl⟩

/-- The call whose return the transport accepted with an event, with the id that the return is for. -/
def Event.returned? : Event → Option Handle
  | .accepted (some call) { root := some (.return ret), .. } => some ⟨ret.answerId, call⟩
  | _ => none

/-- Whether an event is neither a report nor the acceptance of a message. -/
def Event.isQuiet : Event → Bool
  | .reported _ | .accepted .. => false
  | _ => true

theorem Event.isQuiet_of_isForwarding {e : Event} (h : e.isForwarding = true) : e.isQuiet = true := by
  cases e <;> first | rfl | exact absurd h (by simp [isForwarding])

theorem Event.returned?_of_isQuiet {e : Event} (h : e.isQuiet = true) : e.returned? = none := by
  cases e <;> first | rfl | exact absurd h (by simp [isQuiet])

namespace Connection

/-- The calls whose returns the transport accepted, each with the id that its return is for, the last in
    front. -/
def returned (c : Connection) : List Handle := c.history.filterMap Event.returned?

/-- Nothing has failed on a connection, and nothing is about to. -/
structure Faultless (c : Connection) : Prop where
  up : c.link = .up
  transport : c.transport.Faultless
  unlimited : c.messages.Unlimited
  /-- A call that is running has its return. -/
  reserved : ∀ {id a}, c.answers.get? id = some a → a.state.resultsReady = false → a.message ≠ none
  unreported : ∀ e, Event.reported e ∉ c.history

/-- Nothing fails from one connection to a later one. Calls come in, as many as are made; returns are
    accepted, the last in front; and no other message is. -/
structure Proceeds (c : Connection) (made sent : List Handle) (c' : Connection) : Prop where
  faultless : c'.Faultless
  calls : c'.nextCall = made.length + c.nextCall
  returned : c'.returned = sent ++ c.returned
  accepted : c'.transport.accepted = sent.length + c.transport.accepted

/-- Nothing was reported or accepted since. -/
def QuietSince (c c' : Connection) : Prop :=
  ∃ es, c'.history = es ++ c.history ∧ ∀ e ∈ es, e.isQuiet = true

theorem QuietSince.of_eq {c c' : Connection} (h : c'.history = c.history) : c.QuietSince c' :=
  ⟨[], h, by simp⟩

theorem Proceeds.trans {c c' c'' : Connection} {made made' sent sent' : List Handle}
    (h : Proceeds c made sent c') (h' : Proceeds c' made' sent' c'') :
    Proceeds c (made' ++ made) (sent' ++ sent) c'' where
  faultless := h'.faultless
  calls := by rw [h'.calls, h.calls, List.length_append, Nat.add_assoc]
  returned := by rw [h'.returned, h.returned, List.append_assoc]
  accepted := by rw [h'.accepted, h.accepted, List.length_append, Nat.add_assoc]

namespace Faultless

variable {c c' : Connection}

theorem isDown (hc : c.Faultless) : c.isDown = false := (isDown_eq_false_iff c).2 hc.up

/-- Nothing fails, and nothing is reported or accepted. -/
theorem quiet (hc : c.Faultless) {made : List Handle} (hlink : c'.link = c.link)
    (htransport : c.transport.Rests c'.transport) (hm : c'.messages.Unlimited)
    (hrecords : ∀ {id x}, c'.answers.get? id = some x → x.state.resultsReady = false → x.message ≠ none)
    (hcalls : c'.nextCall = made.length + c.nextCall)
    (hhistory : c.QuietSince c') :
    Proceeds c made [] c' := by
  obtain ⟨es, heq, hquiet⟩ := hhistory
  have hnone : es.filterMap Event.returned? = [] :=
    List.filterMap_eq_nil_iff.2 fun e he => Event.returned?_of_isQuiet (hquiet e he)
  refine ⟨⟨hlink.trans hc.up, htransport.faultless hc.transport, hm, hrecords, fun e he => ?_⟩, hcalls,
    ?_, ?_⟩
  · rw [heq, List.mem_append] at he
    rcases he with hnew | hold
    · exact absurd (hquiet _ hnew) (by simp [Event.isQuiet])
    · exact hc.unreported e hold
  · unfold Connection.returned
    rw [heq, List.filterMap_append, hnone]
  · simpa using htransport.accepted

/-- The answers and the messages stay as they are. -/
theorem steady (hc : c.Faultless) (hlink : c'.link = c.link) (hanswers : c'.answers = c.answers)
    (hm : c'.messages = c.messages) (hcalls : c'.nextCall = c.nextCall)
    (htransport : c.transport.Rests c'.transport)
    (hhistory : c.QuietSince c') :
    Proceeds c [] [] c' :=
  hc.quiet hlink htransport (hm ▸ hc.unlimited) (fun hx => hc.reserved (hanswers ▸ hx))
    (by simpa using hcalls) hhistory

theorem refl (hc : c.Faultless) : Proceeds c [] [] c :=
  hc.steady rfl rfl rfl rfl .refl (.of_eq rfl)

theorem reserved_of_replaced (hc : c.Faultless) {id : AnswerId} {a' : Answer}
    (hanswers : c'.answers = c.answers.insert id a' ∨ c'.answers = c.answers.erase id)
    (ha' : a'.state.resultsReady = false → a'.message ≠ none) {j : AnswerId} {x : Answer}
    (hx : c'.answers.get? j = some x) : x.state.resultsReady = false → x.message ≠ none := by
  rcases Table.get?_of_replaced hanswers hx with ⟨-, rfl⟩ | ⟨-, hx⟩
  · exact ha'
  · exact hc.reserved hx

/-- One record is replaced, or leaves the table. -/
theorem of_replaced (hc : c.Faultless) {id : AnswerId} {a' : Answer}
    (hanswers : c'.answers = c.answers.insert id a' ∨ c'.answers = c.answers.erase id)
    (ha' : a'.state.resultsReady = false → a'.message ≠ none) (hlink : c'.link = c.link)
    (htransport : c'.transport = c.transport) (hm : c'.messages.Unlimited)
    (hcalls : c'.nextCall = c.nextCall) (hhistory : c.QuietSince c') : Proceeds c [] [] c' :=
  hc.quiet hlink (htransport ▸ .refl) hm (hc.reserved_of_replaced hanswers ha') (by simpa using hcalls)
    hhistory

end Faultless

/-! ## Calls and their results -/

/-- A call that comes in under a free id has its return reserved. -/
theorem newAnswer_of_faultless {c : Connection} (hc : c.Faultless) {id : AnswerId}
    (hfresh : c.answers.get? id = none) (token : Token) : ∃ e ms,
      c.newAnswer id token = (.created ⟨id, c.nextCall⟩, { c with
        messages := ms
        history := .created id :: .reserved c.options.returnSizeHint :: c.history
        answers := c.answers.insert id { call := c.nextCall, token := token, message := some e }
        handles := c.handles.insert c.nextCall id
        nextCall := c.nextCall + 1 }) ∧ ms.Unlimited := by
  have hcreate := MessageStore.unlimited_create hc.unlimited
  obtain ⟨m, hstart⟩ := Message.startReturn_of_unlimited
    (m := (c.messages.create none).2.message (c.messages.create none).1) (hcreate _) id
  have hin : c.answers.contains id = false := by simp [Table.contains, hfresh]
  have hreserve : c.reserveReturn id =
      (.ok ((c.messages.create none).2.put (c.messages.create none).1 m).1, { c with
        messages := ((c.messages.create none).2.put (c.messages.create none).1 m).2
        history := .reserved c.options.returnSizeHint :: c.history }) := by
    simp [reserveReturn, hc.up, reserve, emit, hc.transport.reservations, hc.transport.wordLimit, hstart]
  refine ⟨((c.messages.create none).2.put (c.messages.create none).1 m).1, _, ?_,
    MessageStore.unlimited_put hcreate (Message.builds_startReturn hstart)⟩
  simp [newAnswer, hin, hreserve, Except.toOption, emit]

theorem proceeds_newAnswer {c : Connection} (hc : c.Faultless) {id : AnswerId}
    (hfresh : c.answers.get? id = none) (token : Token) :
    Proceeds c [⟨id, c.nextCall⟩] [] (c.newAnswer id token).2 := by
  obtain ⟨e, ms, heq, hm⟩ := newAnswer_of_faultless hc hfresh token
  rw [heq]
  exact hc.quiet rfl .refl hm (hc.reserved_of_replaced (Or.inl rfl) fun _ => Option.some_ne_none e)
    (Nat.add_comm _ _) ⟨[.created id, .reserved c.options.returnSizeHint], rfl, by simp [Event.isQuiet]⟩

theorem proceeds_putReturn {c : Connection} (hc : c.Faultless) {id : AnswerId} {a : Answer} {e : Envelope}
    {m : Message} (hm : (c.messages.message e).Builds m) : Proceeds c [] [] (c.putReturn id a e m) :=
  hc.of_replaced (Or.inl rfl) (fun _ => Option.some_ne_none _) rfl rfl
    (MessageStore.unlimited_put hc.unlimited hm) rfl (.of_eq rfl)

theorem proceeds_allocateResults {c : Connection} (hc : c.Faultless) (id : AnswerId) (size : ObjectSize) :
    Proceeds c [] [] (c.allocateResults id size).2 := by
  unfold allocateResults
  split
  · exact hc.refl
  · split
    · exact hc.refl
    · next e _ =>
        have hbuilds := Message.builds_rule.allocateResults (c.messages.message e) size
        split <;> next heq => rw [heq] at hbuilds; exact proceeds_putReturn hc hbuilds

theorem proceeds_setBootstrap {c : Connection} (hc : c.Faultless) (id : AnswerId) (cap : Capability) :
    Proceeds c [] [] (c.setBootstrap id cap).2 := by
  unfold setBootstrap
  split
  · exact hc.refl
  · split
    · exact hc.refl
    · next e _ =>
        have hbuilds := Message.builds_rule.setBootstrap (c.messages.message e) cap
        split <;> next heq => rw [heq] at hbuilds; exact proceeds_putReturn hc hbuilds

/-- A finish of a call whose record stands reports nothing. -/
theorem proceeds_finish {c : Connection} (hc : c.Faultless) (hb : c.books.Reckoning) {id : AnswerId}
    {a : Answer} (ha : c.answers.get? id = some a) (releaseCaps : Bool) :
    Proceeds c [] [] (c.finish id releaseCaps) := by
  have herrors : (c.exports.release (a.givenBack releaseCaps)).errors = [] := by
    unfold Release.errors
    exact if_pos (Exports.release_spec hb.exports (count_givenBack_le hb hc.up ha releaseCaps)).2
  have hreserved : a.state.resultsReady = false → a.message ≠ none := hc.reserved ha
  unfold finish
  rw [ha]
  simp only [herrors, reportAll, List.foldl_nil]
  split
  · exact hc.of_replaced (answers_putAnswer _ id _) hreserved rfl rfl hc.unlimited rfl
      ⟨[.releasedOnFinish id], rfl, by simp [Event.isQuiet]⟩
  · exact hc.of_replaced (answers_putAnswer _ id _) hreserved rfl rfl hc.unlimited rfl
      (.of_eq rfl)

/-! ## Pipelined calls -/

theorem proceeds_setPipeline {c : Connection} (hc : c.Faultless) (id : AnswerId) (name : CallerName) :
    Proceeds c [] [] (c.setPipeline id name) := by
  rcases c.setPipeline_shape id name with heq | ⟨a, ha, hopen, heq⟩
  · rw [heq]
    exact hc.refl
  · have hreserved : a.message ≠ none := hc.reserved ha hopen
    rw [heq]
    exact hc.of_replaced (Or.inl rfl) (fun _ => hreserved) rfl rfl hc.unlimited rfl
      (.of_eq rfl)

theorem proceeds_forward {c : Connection} (hc : c.Faultless) (id : AnswerId) (call : PipelinedCall) :
    Proceeds c [] [] (c.forward id call).2 := by
  obtain ⟨cs, ds, es, heq, hes⟩ := c.forward_shape id call
  rw [heq]
  exact hc.steady rfl rfl rfl rfl .refl ⟨es, rfl, fun e he => Event.isQuiet_of_isForwarding (hes e he)⟩

theorem proceeds_acknowledgeHeld {c : Connection} (hc : c.Faultless) (name : CallerName)
    (owners : List CallId) : Proceeds c [] [] (c.acknowledgeHeld name owners) := by
  obtain ⟨cs, ds, heq⟩ := c.acknowledgeHeld_shape name owners
  rw [heq]
  exact hc.steady rfl rfl rfl rfl .refl (.of_eq rfl)

/-! ## Completions -/

theorem proceeds_returnResults {c : Connection} (hc : c.Faultless) {id : AnswerId} {a : Answer}
    {e : Envelope} {ret : Return} (hroot : e.root = some (.return ret)) :
    Proceeds c [] [] (c.returnResults id (a.complete none) e).2 := by
  have herrors : (c.exports.writeResults (c.messages.message e) false).errors = [] :=
    Exports.errors_of_unlimited (hc.unlimited _) hroot
  have hbuilds := Message.builds_rule.writeResults c.exports (c.messages.message e) false
  simp only [returnResults, hc.isDown, herrors, reportAll, List.foldl_nil]
  exact hc.of_replaced (Or.inl rfl) (fun hopen => absurd hopen (by simp [Answer.complete])) rfl rfl
    (MessageStore.unlimited_put hc.unlimited hbuilds) rfl (.of_eq rfl)

theorem proceeds_returnError {c : Connection} (hc : c.Faultless) {id : AnswerId} {a : Answer}
    {e : Envelope} {ret : Return} (hroot : e.root = some (.return ret)) (x : Error) :
    Proceeds c [] [] (c.returnError id (a.complete (some x)) e x).2 := by
  have hwritten : ((c.messages.message e).writeException x).1 = .ok () :=
    (Message.writeException_eq_ok_iff (m := c.messages.message e) hroot x).2
      (Message.hasRoom_of_unlimited (hc.unlimited _) x)
  have hbuilds := Message.builds_rule.writeException (c.messages.message e) x
  simp only [returnError, hwritten]
  exact hc.of_replaced (Or.inl rfl) (fun hopen => absurd hopen (by simp [Answer.complete])) rfl rfl
    (MessageStore.unlimited_put hc.unlimited hbuilds) rfl (.of_eq rfl)

/-- A completion that begins has the return of its call to go on with. -/
theorem proceeds_beginReturn {c : Connection} (hc : c.Faultless) (haddressed : c.Addressed) {h : Handle}
    {a : Answer} (ha : c.answers.get? h.id = some a) (hopen : a.state.resultsReady = false)
    (result : Except Error Unit) : ∃ e f, (c.beginReturn h.id result).1 = some ⟨some e, f⟩ ∧
      ReturnFor h.id e.root ∧ Proceeds c [] [] (c.beginReturn h.id result).2 := by
  obtain ⟨e, hmsg⟩ := Option.ne_none_iff_exists'.1 (hc.reserved ha hopen)
  obtain ⟨ret, hroot, -⟩ := haddressed h.id a e ha hmsg
  have hproceeds : Proceeds c [] [] (c.beginReturn h.id result).2 := by
    unfold beginReturn
    rw [ha]
    dsimp only
    rw [hmsg]
    cases result with
    | ok u => exact proceeds_returnResults hc hroot
    | error x => exact proceeds_returnError hc hroot x
  have hsend : c.Sendable h result :=
    ⟨hc.isDown, a, e, ha, hmsg, fun x _ => Message.hasRoom_of_unlimited (hc.unlimited _) x⟩
  obtain ⟨begun, ms, x, hs, p, a', heq, -⟩ := c.beginReturn_shape result ha
  rcases c.envelope_beginReturn ha (fun e => haddressed h.id a e ha) result heq with
    ⟨e', henv, hfor, -⟩ | ⟨-, hnot⟩
  · obtain ⟨envelope, f⟩ := begun
    obtain rfl : envelope = some e' := henv
    exact ⟨e', f, by rw [heq], hfor, hproceeds⟩
  · exact absurd hsend hnot

theorem proceeds_endReturn {c : Connection} (hc : c.Faultless) (id : AnswerId) :
    Proceeds c [] [] (c.endReturn id) := by
  unfold endReturn
  split
  · exact hc.refl
  · next a ha =>
      have hreserved : a.state.resultsReady = false → a.message ≠ none := hc.reserved ha
      dsimp only
      split
      · exact hc.of_replaced (answers_putAnswer _ id _) hreserved rfl rfl hc.unlimited rfl
          ⟨[.releasedAfterReturn id], rfl, by simp [Event.isQuiet]⟩
      · exact hc.of_replaced (answers_putAnswer _ id _) hreserved rfl rfl hc.unlimited rfl
          (.of_eq rfl)

theorem proceeds_awaitDeliveries {c : Connection} (hc : c.Faultless) (h : Handle) (w : Wait) :
    Proceeds c [] [] (c.awaitDeliveries h w).2 :=
  hc.steady rfl rfl rfl rfl .refl (.of_eq rfl)

/-! ## Returns on their way out -/

/-- The return of a call is accepted. -/
theorem proceeds_accepted {c : Connection} (hc : c.Faultless) {id : AnswerId} {e : Envelope}
    (hfor : ReturnFor id e.root) (call : CallId) :
    Proceeds c [] [⟨id, call⟩] (({ c with
      sender := none
      transport := { c.transport with
        accepted := c.transport.accepted + 1
        sent := c.transport.sent ++ [e] } }).emit (.accepted (some call) (c.messages.message e))) := by
  obtain ⟨ret, hroot, rfl, -⟩ := hfor
  have hreturned : (Event.accepted (some call) (c.messages.message e)).returned? =
      some ⟨ret.answerId, call⟩ := by
    simp [Event.returned?, MessageStore.message, hroot]
  refine ⟨⟨hc.up, ⟨hc.transport.1, hc.transport.2, hc.transport.3⟩, hc.unlimited, hc.reserved, ?_⟩,
    (Nat.zero_add _).symm, List.filterMap_cons_some hreturned, Nat.add_comm _ _⟩
  intro x hx
  rcases List.mem_cons.1 hx with hnew | hold
  · exact absurd hnew (by simp)
  · exact hc.unreported x hold

/-- What comes of looking after a return on its way out: it stays on its way, or it is accepted. -/
inductive SendLooked (c : Connection) (h : Handle) : SendPoll → Connection → Prop
  | pending {send : SendStage} {c' : Connection} (proceeds : Proceeds c [] [] c') :
      SendLooked c h (.pending send) c'
  | accepted {c' : Connection} (proceeds : Proceeds c [] [h] c') : SendLooked c h (.ended (.ok ())) c'

theorem SendLooked.after {c d c' : Connection} {h : Handle} {polled : SendPoll}
    (hlooked : SendLooked d h polled c') (hd : Proceeds c [] [] d) : SendLooked c h polled c' := by
  cases hlooked with
  | pending proceeds => exact .pending (hd.trans proceeds)
  | accepted proceeds => exact .accepted (hd.trans proceeds)

theorem transmit_looked {c : Connection} (hc : c.Faultless) {h : Handle} {e : Envelope}
    (hfor : ReturnFor h.id e.root) (gate : Option GateId) :
    SendLooked c h (c.transmit (some h.call) e gate).1 (c.transmit (some h.call) e gate).2 := by
  unfold transmit
  split
  · exact .pending hc.refl
  · dsimp only
    split
    · next x hfail => exact absurd (hc.transport.sends.symm.trans hfail) (by simp)
    · exact .accepted (proceeds_accepted hc hfor h.call)

theorem pollSend_looked {c : Connection} (hc : c.Faultless) (t : TaskId) {h : Handle} {send : SendStage}
    (hfor : ReturnFor h.id send.envelope.root) :
    SendLooked c h (c.pollSend t (some h.call) send).1 (c.pollSend t (some h.call) send).2 := by
  cases send with
  | transmitting e gate => exact transmit_looked hc hfor gate
  | waiting e =>
      unfold pollSend
      cases hsender : c.sender with
      | some u => exact .pending hc.refl
      | none =>
          have hover : Proceeds c [] [] (c.handOver t (some h.call) e).2 :=
            hc.steady rfl rfl rfl rfl ⟨fun h => ⟨h.1, h.2, h.3⟩, rfl⟩
              ⟨[.handedOver (some h.call) (c.messages.message e)], rfl, by simp [Event.isQuiet]⟩
          exact (transmit_looked hover.faultless hfor _).after hover

/-- What comes of looking after the completion of a call that owes its return: the return stays on its way,
    or it is accepted and owed no more. -/
inductive ReturnLooked (c : Connection) (h : Handle) : Option ReturnStage → Connection → Prop
  | sending {send : SendStage} {f : Bool} {c' : Connection} (proceeds : Proceeds c [] [] c') :
      ReturnLooked c h (some (.sending send f)) c'
  | settled {left : Option Wait} {c' : Connection} (proceeds : Proceeds c [] [h] c') :
      ReturnLooked c h (left.map .draining) c'

theorem ReturnLooked.after {c d c' : Connection} {h : Handle} {left : Option ReturnStage}
    (hlooked : ReturnLooked d h left c') (hd : Proceeds c [] [] d) : ReturnLooked c h left c' := by
  cases hlooked with
  | sending proceeds => exact .sending (hd.trans proceeds)
  | settled proceeds => exact .settled (hd.trans proceeds)

theorem settleReturn_looked {c d : Connection} {h : Handle} (hd : Proceeds c [] [h] d) :
    ReturnLooked c h (d.settleReturn h).1 (d.settleReturn h).2 := by
  have hend := proceeds_endReturn hd.faultless h.id
  exact .settled ((hd.trans hend).trans (proceeds_awaitDeliveries hend.faultless h .unasked))

theorem awaitReturn_looked {c : Connection} (hc : c.Faultless) (t : TaskId) {h : Handle}
    {send : SendStage} (f : Bool) (hfor : ReturnFor h.id send.envelope.root) :
    ReturnLooked c h (c.awaitReturn t h send f).1 (c.awaitReturn t h send f).2 := by
  have hlooked := pollSend_looked hc t hfor
  unfold awaitReturn
  split
  · next heq =>
      rw [heq] at hlooked
      cases hlooked with
      | pending proceeds => exact .sending proceeds
  · next heq =>
      rw [heq] at hlooked
      cases hlooked
  · next heq =>
      rw [heq] at hlooked
      cases hlooked with
      | accepted proceeds => exact settleReturn_looked proceeds

/-- Nothing fails while the completion of a call is looked after. -/
theorem pollReturn_looked {c : Connection} (hc : c.Faultless) (haddressed : c.Addressed)
    (hb : c.books.Custody) (t : TaskId) {h : Handle} {stage : ReturnStage} {s : HandleStage}
    {p : Holder} (hold : c.books.Holds p h s) (howes : stage.owes = some s)
    (hfor : ∀ send f, stage = .sending send f → ReturnFor h.id send.envelope.root) :
    ReturnLooked c h (c.pollReturn t h stage).1 (c.pollReturn t h stage).2 := by
  cases stage with
  | draining w => exact absurd howes (by simp [ReturnStage.owes])
  | sending send f => exact awaitReturn_looked hc t f (hfor send f rfl)
  | unbegun result =>
      obtain rfl : s = .building := (Option.some.inj howes).symm
      obtain ⟨a, ha, -, -, hopen⟩ := hb.found_at hold
      obtain ⟨e, f, hbegun, haddress, hbegin⟩ := proceeds_beginReturn hc haddressed ha hopen result
      unfold pollReturn
      dsimp only
      split
      · next heq =>
          rw [heq] at hbegun
          exact absurd hbegun (by simp)
      · next e' f' c₁ heq =>
          rw [heq] at hbegun hbegin
          obtain ⟨rfl, rfl⟩ : e' = e ∧ f' = f := by simpa using hbegun
          exact (awaitReturn_looked hbegin.faultless t f' haddress).after hbegin
      · next heq =>
          rw [heq] at hbegun
          exact absurd hbegun (by simp)

end Connection

end Callee
