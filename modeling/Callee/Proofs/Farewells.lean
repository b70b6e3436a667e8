import Callee.Proofs.Ledger
import Callee.Proofs.Polling
import Callee.Proofs.Sending

set_option autoImplicit false

/-! # Farewells

The transport hears of the end of a connection when it is handed the abort, when it accepts it and when it
is told to shut down. Only work that ends a connection brings that about, and only while it runs; `endsBy`
says which work does, and how far it has come.

What such work has yet to tell the transport depends on how far it has come. What it does tell goes from
there to the history: `Told` is the balance of the two, and `told_pollDisconnect` says that looking after the
end of a connection keeps it. `Runs` lists what a piece of work comes to when it runs. -/

namespace Callee

/-! ## What the transport is told -/

/-- Whether the transport hears of the end of the connection by an event. -/
def Event.isFarewell : Event → Bool
  | .handedOver none _ | .accepted none _ | .shutDown _ => true
  | _ => false

/-- The abort that an event hands over. -/
def Event.abort? : Event → Option Message
  | .handedOver none m => some m
  | _ => none

/-- The reason for which an event tells the transport to shut down. -/
def Event.shutdown? : Event → Option Error
  | .shutDown reason => some reason
  | _ => none

theorem Event.isFarewell_of_isForwarding {e : Event} (h : e.isForwarding = true) :
    e.isFarewell = false := by
  cases e with
  | handedOver call m => exact absurd h (by simp [isForwarding])
  | accepted call m => exact absurd h (by simp [isForwarding])
  | shutDown reason => exact absurd h (by simp [isForwarding])
  | _ => rfl

/-! ## Work that ends a connection -/

namespace DisconnectStage

/-- Whether the end of a connection has begun. -/
def hasBegun : DisconnectStage → Bool
  | .unbegun => false
  | _ => true

theorem eq_unbegun {stage : DisconnectStage} (h : stage.hasBegun = false) : stage = .unbegun := by
  cases stage with
  | unbegun => rfl
  | aborting send => exact absurd h (by simp [hasBegun])
  | shuttingDown gate => exact absurd h (by simp [hasBegun])

/-- The number of aborts that are yet to be handed over. -/
def abortsLeft : DisconnectStage → Nat
  | .unbegun | .aborting (.waiting _) => 1
  | .aborting (.transmitting ..) | .shuttingDown _ => 0

/-- The orders to shut down that are yet to be given, each with its reason. -/
def shutdownsLeft (e : Error) : DisconnectStage → List Error
  | .unbegun | .aborting _ => [e]
  | .shuttingDown _ => []

end DisconnectStage

/-- The end of the connection that a piece of work is concerned with. -/
def Work.ending? : Work → Option (Error × DisconnectStage)
  | .disconnect e stage | .accept (.refusing e stage) => some (e, stage)
  | _ => none

/-- Whether a piece of work has begun to end the connection. -/
def Work.isEnding : Work → Bool
  | .disconnect _ stage => stage.hasBegun
  | .accept (.refusing _ stage) => stage.hasBegun
  | _ => false

theorem Work.isEnding_iff (work : Work) :
    work.isEnding = true ↔ ∃ e stage, work.ending? = some (e, stage) ∧ stage.hasBegun = true := by
  cases work with
  | sendReturn h stage => simp [isEnding, ending?]
  | disconnect e stage => simp [isEnding, ending?]
  | accept stage => cases stage <;> simp [isEnding, ending?]

theorem Work.isEnding_of_none {work : Work} (h : work.ending? = none) : work.isEnding = false := by
  cases hending : work.isEnding with
  | false => rfl
  | true =>
      obtain ⟨e, stage, hsome, -⟩ := (work.isEnding_iff).1 hending
      exact absurd (h.symm.trans hsome) (by simp)

theorem Work.IsFresh.isEnding {work : Work} (h : work.IsFresh) : work.isEnding = false := by
  cases work with
  | sendReturn k stage => rfl
  | accept stage =>
      cases stage with
      | unbegun id token => rfl
      | refusing e stage => exact h.elim
  | disconnect e stage =>
      cases stage with
      | unbegun => rfl
      | aborting send => exact h.elim
      | shuttingDown gate => exact h.elim

namespace Connection

/-! ## The record of farewells -/

/-- What the transport has heard of the end of the connection, the last in front. -/
def farewells (c : Connection) : List Event := c.history.filter Event.isFarewell

/-- The aborts that were handed to the transport, the last in front. -/
def aborts (c : Connection) : List Message := c.history.filterMap Event.abort?

/-- The orders to shut down that the transport was given, each with its reason, the last in front. -/
def shutdowns (c : Connection) : List Error := c.history.filterMap Event.shutdown?

theorem farewells_of_dealings {c c' : Connection} (h : c'.dealings = c.dealings) :
    c'.farewells = c.farewells := by
  have htraffic : ∀ d : Connection, d.farewells = d.dealings.traffic.filter Event.isFarewell := by
    intro d
    unfold farewells dealings
    rw [List.filter_filter]
    refine List.filter_congr fun e _ => ?_
    cases e <;> simp [Event.isFarewell, Event.isDealing]
  rw [htraffic, htraffic, h]

/-- What is read off the farewells is the same where they are. -/
theorem filterMap_of_farewells {α : Type} {f : Event → Option α}
    (hf : ∀ e : Event, e.isFarewell = false → f e = none) {c c' : Connection}
    (h : c'.farewells = c.farewells) : c'.history.filterMap f = c.history.filterMap f := by
  have hall : ∀ d : Connection, d.history.filterMap f = d.farewells.filterMap f := by
    intro d
    unfold farewells
    rw [List.filterMap_filter]
    congr 1
    funext e
    split
    · rfl
    · next hnot => exact hf e (by simpa using hnot)
  rw [hall, hall, h]

theorem aborts_of_farewells {c c' : Connection} (h : c'.farewells = c.farewells) :
    c'.aborts = c.aborts := by
  refine filterMap_of_farewells (fun e he => ?_) h
  match e with
  | .handedOver none m => exact absurd he (by simp [Event.isFarewell])
  | .handedOver (some call) m => rfl
  | .reserved _ | .accepted .. | .shutDown _ | .reported _ | .created _ | .releasedOnFinish _
  | .releasedAfterReturn _ | .disconnecting _ | .pipelined .. | .nested _ => rfl

theorem shutdowns_of_farewells {c c' : Connection} (h : c'.farewells = c.farewells) :
    c'.shutdowns = c.shutdowns := by
  refine filterMap_of_farewells (fun e he => ?_) h
  cases e with
  | shutDown reason => exact absurd he (by simp [Event.isFarewell])
  | _ => rfl

theorem farewells_emit (c : Connection) {e : Event} (h : e.isFarewell = false) :
    (c.emit e).farewells = c.farewells :=
  List.filter_cons_of_neg (by simp [h])

/-! ## Completing a call -/

theorem farewells_transmit (c : Connection) (call : CallId) (e : Envelope) (gate : Option GateId) :
    (c.transmit (some call) e gate).2.farewells = c.farewells := by
  unfold transmit
  split
  · rfl
  · dsimp only
    split
    · rfl
    · exact farewells_emit _ rfl

theorem farewells_pollSend (c : Connection) (t : TaskId) (call : CallId) (send : SendStage) :
    (c.pollSend t (some call) send).2.farewells = c.farewells := by
  cases send with
  | transmitting e gate => exact c.farewells_transmit call e gate
  | waiting e =>
      simp only [pollSend]
      split
      · rfl
      · exact (farewells_transmit _ call e _).trans (farewells_emit _ rfl)

theorem farewells_returnRule : ReturnRule fun c c' => c'.farewells = c.farewells where
  trans h h' := h'.trans h
  stays _ := rfl
  reports c e := farewells_of_dealings (c.dealings_report e)
  sends := farewells_pollSend
  ends c id := farewells_of_dealings (c.dealings_endReturn id)
  delivers _ _ _ := rfl

/-- The transport hears nothing of the end of the connection when a call is completed. -/
theorem farewells_pollReturn (c : Connection) (t : TaskId) (h : Handle) (stage : ReturnStage) :
    (c.pollReturn t h stage).2.farewells = c.farewells := by
  have hbegun : (c.begun (.sendReturn h stage)).farewells = c.farewells := by
    cases stage with
    | unbegun result => exact farewells_of_dealings (c.dealings_beginReturn h.id result)
    | sending send f => rfl
    | draining w => rfl
  exact (farewells_returnRule.pollReturn c t h stage).trans hbegun

/-! ## Ending a connection -/

theorem aborts_transmit (c : Connection) (call : Option CallId) (e : Envelope) (gate : Option GateId) :
    (c.transmit call e gate).2.aborts = c.aborts := by
  unfold transmit
  split
  · rfl
  · dsimp only
    split <;> rfl

theorem shutdowns_transmit (c : Connection) (call : Option CallId) (e : Envelope)
    (gate : Option GateId) : (c.transmit call e gate).2.shutdowns = c.shutdowns := by
  unfold transmit
  split
  · rfl
  · dsimp only
    split <;> rfl

/-- An abort is handed over when its turn comes. -/
theorem aborts_pollSend (c : Connection) (t : TaskId) (send : SendStage) :
    (c.pollSend t none send).2.aborts = c.passes send ++ c.aborts := by
  cases send with
  | transmitting e gate => exact c.aborts_transmit none e gate
  | waiting e =>
      unfold pollSend passes
      cases hsender : c.sender with
      | some u => rfl
      | none => exact aborts_transmit _ none e _

theorem shutdowns_pollSend (c : Connection) (t : TaskId) (send : SendStage) :
    (c.pollSend t none send).2.shutdowns = c.shutdowns := by
  cases send with
  | transmitting e gate => exact c.shutdowns_transmit none e gate
  | waiting e =>
      unfold pollSend
      cases hsender : c.sender with
      | some u => rfl
      | none => exact shutdowns_transmit _ none e _

/-- An abort that was handed over does not go back to wait. -/
theorem passes_add_abortsLeft {c : Connection} {t : TaskId} {send left : SendStage}
    (hpending : (c.pollSend t none send).1 = .pending left) :
    (c.passes send).length + (DisconnectStage.aborting left).abortsLeft =
      (DisconnectStage.aborting send).abortsLeft := by
  have htransmit : ∀ (d : Connection) (e : Envelope) (gate : Option GateId),
      (d.transmit none e gate).1 = .pending left → left = .transmitting e gate := by
    intro d e gate h
    unfold transmit at h
    split at h
    · exact (SendPoll.pending.inj h).symm
    · dsimp only at h
      split at h <;> exact absurd h (by simp)
  cases send with
  | transmitting e gate =>
      obtain rfl := htransmit c e gate hpending
      rfl
  | waiting e =>
      unfold pollSend at hpending
      cases hsender : c.sender with
      | some u =>
          rw [hsender] at hpending
          obtain rfl := SendPoll.pending.inj hpending
          simp [passes, hsender, DisconnectStage.abortsLeft]
      | none =>
          rw [hsender] at hpending
          obtain rfl := htransmit _ e _ hpending
          simp [passes, hsender, DisconnectStage.abortsLeft]

theorem length_passes_le (c : Connection) (send : SendStage) :
    (c.passes send).length ≤ (DisconnectStage.aborting send).abortsLeft := by
  cases send with
  | transmitting e gate => exact Nat.le_refl 0
  | waiting e => by_cases hfree : c.sender = none <;> simp [passes, hfree, DisconnectStage.abortsLeft]

/-- What the end of a connection has told the transport and has yet to tell it is what it had to tell
    before; only an abort may be given up. -/
structure Told (c : Connection) (e : Error) (shutdowns : List Error) (aborts : Nat)
    (r : Option DisconnectStage × Connection) : Prop where
  shutdowns : r.1.elim [] (DisconnectStage.shutdownsLeft e) ++ r.2.shutdowns =
    shutdowns ++ c.shutdowns
  aborts : r.2.aborts.length + r.1.elim 0 DisconnectStage.abortsLeft ≤ c.aborts.length + aborts
  /-- What is left of it has begun. -/
  begun : ∀ next, r.1 = some next → next.hasBegun = true

theorem Told.of_farewells {c d : Connection} {e : Error} {shutdowns : List Error} {aborts : Nat}
    {r : Option DisconnectStage × Connection} (h : Told d e shutdowns aborts r)
    (hd : d.farewells = c.farewells) : Told c e shutdowns aborts r := by
  obtain ⟨hshutdowns, haborts, hbegun⟩ := h
  rw [shutdowns_of_farewells hd] at hshutdowns
  rw [aborts_of_farewells hd] at haborts
  exact ⟨hshutdowns, haborts, hbegun⟩

theorem Told.to_farewells {c d d' : Connection} {e : Error} {shutdowns : List Error} {aborts : Nat}
    {left : Option DisconnectStage} (h : Told c e shutdowns aborts (left, d))
    (hd : d'.farewells = d.farewells) : Told c e shutdowns aborts (left, d') := by
  obtain ⟨hshutdowns, haborts, hbegun⟩ := h
  rw [← shutdowns_of_farewells hd] at hshutdowns
  rw [← aborts_of_farewells hd] at haborts
  exact ⟨hshutdowns, haborts, hbegun⟩

theorem farewells_awaitShutdown (c : Connection) (gate : Option GateId) :
    (c.awaitShutdown gate).2.farewells = c.farewells := by
  unfold awaitShutdown
  split
  · rfl
  · split
    · exact farewells_of_dealings (c.dealings_reportUnlessGone _)
    · rfl

theorem told_awaitShutdown (c : Connection) (e : Error) (gate : Option GateId) :
    Told c e [] 0 (c.awaitShutdown gate) := by
  have hsame := c.farewells_awaitShutdown gate
  have hleft : ∀ stage, (c.awaitShutdown gate).1 = some stage → stage = .shuttingDown gate := by
    intro stage h
    unfold awaitShutdown at h
    split at h
    · exact (Option.some.inj h).symm
    · split at h <;> exact absurd h (by simp)
  refine ⟨?_, ?_, fun stage h => by rw [hleft stage h]; rfl⟩
  · rw [shutdowns_of_farewells hsame]
    cases h : (c.awaitShutdown gate).1 with
    | none => rfl
    | some stage => rw [hleft stage h]; rfl
  · rw [aborts_of_farewells hsame]
    cases h : (c.awaitShutdown gate).1 with
    | none => exact Nat.le_refl _
    | some stage => rw [hleft stage h]; exact Nat.le_refl _

theorem told_startShutdown (c : Connection) (e : Error) : Told c e [e] 0 (c.startShutdown e) := by
  obtain ⟨hshutdowns, haborts, hbegun⟩ := told_awaitShutdown
    (({ c with transport := { c.transport with shutdownGate := none } }).emit (.shutDown e)) e
    c.transport.shutdownGate
  exact ⟨hshutdowns, haborts, hbegun⟩

theorem told_awaitAbort (c : Connection) (t : TaskId) (e : Error) (send : SendStage) :
    Told c e [e] (DisconnectStage.aborting send).abortsLeft (c.awaitAbort t e send) := by
  have haborts := c.aborts_pollSend t send
  have hshutdowns := c.shutdowns_pollSend t send
  have hover : ∀ d : Connection, d.farewells = (c.pollSend t none send).2.farewells →
      Told c e [e] (DisconnectStage.aborting send).abortsLeft (d.startShutdown e) := by
    intro d hd
    obtain ⟨htold, hcount, hbegun⟩ := d.told_startShutdown e
    rw [shutdowns_of_farewells hd, hshutdowns] at htold
    rw [aborts_of_farewells hd, haborts, List.length_append] at hcount
    have hpasses := c.length_passes_le send
    exact ⟨htold, by omega, hbegun⟩
  unfold awaitAbort
  split
  · next left c₁ heq =>
      have hleft := passes_add_abortsLeft (congrArg Prod.fst heq)
      rw [heq] at haborts hshutdowns
      refine ⟨congrArg (e :: ·) hshutdowns, ?_, fun next h => by rw [← Option.some.inj h]; rfl⟩
      simp only [Option.elim_some, haborts, List.length_append]
      omega
  · next x c₁ heq =>
      refine hover _ ?_
      rw [heq]
      exact farewells_of_dealings (c₁.dealings_reportUnlessGone x)
  · next c₁ heq => exact hover c₁ (by rw [heq])

/-- Looking after the end of a connection keeps the balance, unless it is to begin and the connection is
    broken already. -/
theorem told_pollDisconnect (c : Connection) (t : TaskId) (e : Error) {stage : DisconnectStage}
    (hup : stage = .unbegun → c.isDown = false) :
    Told c e (stage.shutdownsLeft e) stage.abortsLeft (c.pollDisconnect t e stage) := by
  cases stage with
  | aborting send => exact c.told_awaitAbort t e send
  | shuttingDown gate => exact c.told_awaitShutdown e gate
  | unbegun =>
      have hbegun := farewells_of_dealings (c.dealings_beginDisconnect e)
      simp only [pollDisconnect]
      split
      · next heq =>
          simp [beginDisconnect, hup rfl] at heq
      · next envelope c₁ heq =>
          rw [heq] at hbegun
          exact (c₁.told_awaitAbort t e (.waiting envelope)).of_farewells hbegun
      · next x c₁ heq =>
          rw [heq] at hbegun
          obtain ⟨htold, hcount, hleft⟩ := ((c₁.report x).told_startShutdown e).of_farewells
            ((farewells_of_dealings (c₁.dealings_report x)).trans hbegun)
          exact ⟨htold, Nat.le_succ_of_le hcount, hleft⟩

/-- Nothing is told when the order to shut down was given. -/
theorem farewells_pollDisconnect (c : Connection) (t : TaskId) (e : Error) {stage : DisconnectStage}
    (hsettled : stage.shutdownsLeft e = []) : (c.pollDisconnect t e stage).2.farewells = c.farewells := by
  cases stage with
  | unbegun => exact absurd hsettled (by simp [DisconnectStage.shutdownsLeft])
  | aborting send => exact absurd hsettled (by simp [DisconnectStage.shutdownsLeft])
  | shuttingDown gate => exact c.farewells_awaitShutdown gate

/-- The abort is done with when the end of a connection is looked after: it cannot be written, or its
    transmission ends, with whatever result. -/
inductive AbortOver (c : Connection) (t : TaskId) (e : Error) : DisconnectStage → Prop
  | unwritten {x : Error} (failed : (c.beginDisconnect e).1 = some (.error x)) : AbortOver c t e .unbegun
  | sentAtOnce {envelope : Envelope} {d : Connection} {result : Except Error Unit}
      (written : c.beginDisconnect e = (some (.ok envelope), d))
      (ended : (d.pollSend t none (.waiting envelope)).1 = .ended result) : AbortOver c t e .unbegun
  | sent {send : SendStage} {result : Except Error Unit}
      (ended : (c.pollSend t none send).1 = .ended result) : AbortOver c t e (.aborting send)

theorem ended_of_shutdowns {c : Connection} {t : TaskId} {e : Error} {send : SendStage}
    (hchanged : (c.awaitAbort t e send).2.shutdowns ≠ c.shutdowns) :
    ∃ result, (c.pollSend t none send).1 = .ended result := by
  have hshutdowns := c.shutdowns_pollSend t send
  unfold awaitAbort at hchanged
  split at hchanged
  · next heq =>
      rw [heq] at hshutdowns
      exact absurd hshutdowns hchanged
  · next x c₁ heq => exact ⟨.error x, by rw [heq]⟩
  · next c₁ heq => exact ⟨.ok (), by rw [heq]⟩

/-- The transport is told to shut down only when the abort is done with. -/
theorem abortOver_of_shutdowns {c : Connection} {t : TaskId} {e : Error} {stage : DisconnectStage}
    (hchanged : (c.pollDisconnect t e stage).2.shutdowns ≠ c.shutdowns) : c.AbortOver t e stage := by
  cases stage with
  | aborting send =>
      obtain ⟨result, hended⟩ := ended_of_shutdowns hchanged
      exact .sent hended
  | shuttingDown gate =>
      exact absurd (shutdowns_of_farewells (c.farewells_awaitShutdown gate)) hchanged
  | unbegun =>
      have hbegun := shutdowns_of_farewells (farewells_of_dealings (c.dealings_beginDisconnect e))
      simp only [pollDisconnect] at hchanged
      split at hchanged
      · next heq =>
          rw [heq] at hbegun
          exact absurd hbegun hchanged
      · next envelope d heq =>
          rw [heq] at hbegun
          rw [← hbegun] at hchanged
          obtain ⟨result, hended⟩ := ended_of_shutdowns hchanged
          exact .sentAtOnce heq hended
      · next heq => exact .unwritten (congrArg Prod.fst heq)

/-! ## Who ends a connection -/

/-- The end of the connection that a piece of work goes on with when it runs: with which error, and how far
    it has come. A call under an id in use ends the connection too, if the options say so. -/
def endsBy (c : Connection) : Work → Option (Error × DisconnectStage)
  | .accept (.unbegun id _) =>
      if c.answers.contains id && c.options.abortOnDuplicate then some (.idReused id, .unbegun) else none
  | work => work.ending?

theorem ending_of_endsBy {c : Connection} {work : Work} {e : Error} {stage : DisconnectStage}
    (h : c.endsBy work = some (e, stage)) (hbegun : stage.hasBegun = true) :
    work.ending? = some (e, stage) := by
  unfold endsBy at h
  split at h
  · split at h
    · obtain ⟨-, rfl⟩ := Prod.mk.inj (Option.some.inj h)
      exact absurd hbegun (by simp [DisconnectStage.hasBegun])
    · exact absurd h (by simp)
  · exact h

theorem endsBy_of_ending {c : Connection} {work : Work} {e : Error} {stage : DisconnectStage}
    (h : work.ending? = some (e, stage)) : c.endsBy work = some (e, stage) := by
  unfold endsBy
  split
  · exact absurd h (by simp [Work.ending?])
  · exact h

/-- The connection when the work that ends it has reported what it has to report first. -/
def beforeEnd (c : Connection) : Work → Connection
  | .accept (.unbegun id _) => c.report (.idReused id)
  | _ => c

theorem dealings_beforeEnd (c : Connection) (work : Work) :
    (c.beforeEnd work).dealings = c.dealings := by
  unfold beforeEnd
  split <;> rfl

/-- The end of the connection that is left of a piece of work. -/
def leftEnd : TaskPoll ⊕ Work → Option (Error × DisconnectStage) :=
  Sum.elim (fun _ => none) Work.ending?

/-- What running a piece of work comes to. -/
inductive Runs (c : Connection) (t : TaskId) : Work → Prop
  | completes {h : Handle} {stage : ReturnStage}
      (run : (c.run t (.sendReturn h stage)).2 = (c.pollReturn t h stage).2)
      (left : leftEnd (c.run t (.sendReturn h stage)).1 = none) : Runs c t (.sendReturn h stage)
  | admits {id : AnswerId} {token : Token} (free : c.answers.get? id = none)
      (run : c.run t (.accept (.unbegun id token)) =
        (.inl (.admitted (c.newAnswer id token).1), (c.newAnswer id token).2)) :
      Runs c t (.accept (.unbegun id token))
  | refuses {id : AnswerId} {token : Token} (stays : c.endsBy (.accept (.unbegun id token)) = none)
      (run : c.run t (.accept (.unbegun id token)) =
        (.inl (.admitted (.duplicate (.idReused id))), c.report (.idReused id))) :
      Runs c t (.accept (.unbegun id token))
  | ends {work : Work} {e : Error} {stage : DisconnectStage} (goes : c.endsBy work = some (e, stage))
      (run : (c.run t work).2 = ((c.beforeEnd work).pollDisconnect t e stage).2)
      (left : leftEnd (c.run t work).1 =
        ((c.beforeEnd work).pollDisconnect t e stage).1.map fun stage => (e, stage))
      (halts : (c.run t work).1.isLeft = ((c.beforeEnd work).pollDisconnect t e stage).1.isNone) :
      Runs c t work

/-- A call under a free id is admitted in a task like any other. -/
theorem run_accept_of_free {c : Connection} (t : TaskId) {id : AnswerId} (token : Token)
    (hfree : c.answers.get? id = none) : c.run t (.accept (.unbegun id token)) =
      (.inl (.admitted (c.newAnswer id token).1), (c.newAnswer id token).2) := by
  obtain ⟨admission, ms, hs, hnew, -, hnot⟩ := c.newAnswer_shape token hfree
  simp only [run, pollAccept]
  rw [hnew]
  cases admission with
  | duplicate e => exact absurd rfl (hnot e)
  | created h => rfl
  | unsendable h e => rfl

theorem runs (c : Connection) (t : TaskId) (work : Work) : c.Runs t work := by
  cases work with
  | sendReturn h stage =>
      refine .completes (c.run_sendReturn t h stage) ?_
      simp only [run]
      split <;> rfl
  | disconnect e stage =>
      refine .ends rfl ?_ ?_ ?_
      all_goals
        simp only [run, beforeEnd]
        generalize c.pollDisconnect t e stage = r
        obtain ⟨left, d⟩ := r
        cases left <;> rfl
  | accept stage =>
      cases stage with
      | refusing e stage =>
          refine .ends rfl ?_ ?_ ?_
          all_goals
            simp only [run, pollAccept, beforeEnd]
            generalize c.pollDisconnect t e stage = r
            obtain ⟨left, d⟩ := r
            cases left <;> rfl
      | unbegun id token =>
          cases hget : c.answers.get? id with
          | none => exact .admits hget (run_accept_of_free t token hget)
          | some a =>
              have hused : c.answers.contains id = true := by simp [Table.contains, hget]
              cases habort : c.options.abortOnDuplicate with
              | false =>
                  refine .refuses (by simp [endsBy, habort]) ?_
                  simp [run, pollAccept, c.newAnswer_of_live token hget, report, emit, habort]
              | true =>
                  have hgoes : c.endsBy (.accept (.unbegun id token)) =
                      some (.idReused id, .unbegun) := by
                    simp [endsBy, hused, habort]
                  have hoption : (c.report (.idReused id)).options.abortOnDuplicate = true := habort
                  refine .ends hgoes ?_ ?_ ?_
                  all_goals
                    simp only [run, pollAccept, c.newAnswer_of_live token hget, hoption, if_true,
                      beforeEnd]
                    generalize (c.report (.idReused id)).pollDisconnect t (.idReused id) .unbegun = r
                    obtain ⟨left, d⟩ := r
                    cases left <;> rfl

end Connection

end Callee
