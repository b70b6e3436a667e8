import Callee.Proofs.Noninterference
import Callee.Proofs.Lane

set_option autoImplicit false

/-! # Messages that have left their records

Every message stands in one arena. As long as a record holds it nobody else does; when the record has parted
with it, it is on its way out, and then the transport may keep it. An action has at most one message accepted,
that of the task that it polls (`accepts_step`), and what such a task goes on with afterwards is that message
too (`outgoing_step`). It has left its record by then, or was never in one (`sealed_of_offered`). So whatever
is on its way out or is kept by the transport has a sealed arena (`Reachable.parted`), and the arena of a
return that a record holds is referred to by that record alone (`Reachable.unshared`). -/

namespace Callee

theorem Table.mem_values_iff {κ α : Type} [DecidableEq κ] (t : Table κ α) (v : α) :
    v ∈ t.values ↔ ∃ k, t.get? k = some v := by
  simp only [values, List.mem_map, Prod.exists, exists_eq_right, mem_entries_iff]

/-- The message of a piece of work is the one that it has on its way out. -/
theorem Work.send?_eq (work : Work) : work.send? = work.outgoing?.map Prod.snd := by
  cases work with
  | sendReturn h stage => cases stage <;> rfl
  | disconnect e stage => cases stage <;> rfl
  | accept stage =>
      cases stage with
      | unbegun id token => rfl
      | refusing e stage => cases stage <;> rfl

/-! ## On the way -/

/-- What is left to look after is the message that was looked after. -/
theorem Lane.Carries.envelope {b b' : Lane} {who : Option CallId} {e : Envelope} {gate : Option GateId}
    {left : Option SendStage} (h : b.Carries who e gate left b') {send : SendStage}
    (hleft : left = some send) : send.envelope = e := by
  cases h with
  | held =>
      obtain rfl := Option.some.inj hleft
      rfl
  | refused => exact absurd hleft (by simp)
  | accepted => exact absurd hleft (by simp)

theorem Lane.Polls.envelope {b b' : Lane} {t : TaskId} {who : Option CallId} {send : SendStage}
    {left : Option SendStage} (h : b.Polls t who send left b') {next : SendStage}
    (hleft : left = some next) : next.envelope = send.envelope := by
  cases h with
  | waits busy =>
      obtain rfl := Option.some.inj hleft
      rfl
  | enters free carries => exact carries.envelope hleft
  | goesOn carries => exact carries.envelope hleft

theorem Lane.Runs.envelope {b b' : Lane} {t : TaskId} {offered left : Option (Option CallId × SendStage)}
    (h : b.Runs t offered left b') {next : Option CallId × SendStage} (hleft : left = some next) :
    offered.map (fun x => x.2.envelope) = some next.2.envelope := by
  cases h with
  | nothing => exact absurd hleft (by simp)
  | polls polls =>
      obtain ⟨send, hsend, rfl⟩ := Option.map_eq_some_iff.1 hleft
      exact congrArg some (polls.envelope hsend).symm

namespace Connection

/-! ## What the transport keeps -/

/-- Whatever the transport keeps afterwards it kept before, but for one message that it may have accepted. -/
def Accepts (c : Connection) (o : Option Envelope) (c' : Connection) : Prop :=
  ∀ e ∈ c'.transport.sent, e ∈ c.transport.sent ∨ o = some e

namespace Accepts

variable {c c' c'' : Connection} {o : Option Envelope}

theorem of_eq (h : c'.transport.sent = c.transport.sent) : c.Accepts o c' :=
  fun _ he => Or.inl (h ▸ he)

theorem since (h : c'.Accepts o c'') (hsame : c'.transport.sent = c.transport.sent) : c.Accepts o c'' :=
  fun e he => (h e he).imp_left fun hin => hsame ▸ hin

theorem still (h : c.Accepts o c') (hsame : c''.transport.sent = c'.transport.sent) : c.Accepts o c'' :=
  fun e he => h e (hsame ▸ he)

end Accepts

theorem transport_endReturn (c : Connection) (id : AnswerId) :
    (c.endReturn id).transport = c.transport := by
  cases ha : c.answers.get? id with
  | none => rw [c.endReturn_of_none ha]
  | some a =>
      obtain ⟨hs, heq⟩ := c.endReturn_shape ha
      rw [heq]
      rfl

theorem transport_cancelReturn (c : Connection) (id : AnswerId) :
    (c.cancelReturn id).transport = c.transport := by
  cases ha : c.answers.get? id with
  | none => rw [c.cancelReturn_of_none ha]
  | some a =>
      obtain ⟨hs, heq⟩ := c.cancelReturn_shape ha
      rw [heq]
      rfl

theorem transport_newAnswer (c : Connection) (id : AnswerId) (token : Token) :
    (c.newAnswer id token).2.transport = c.transport := by
  cases ha : c.answers.get? id with
  | some a => rw [c.newAnswer_of_live token ha]
  | none =>
      obtain ⟨admission, ms, hs, heq, -⟩ := c.newAnswer_shape token ha
      rw [heq]

theorem transport_beginReturn (c : Connection) (id : AnswerId) (result : Except Error Unit) :
    (c.beginReturn id result).2.transport = c.transport := by
  cases ha : c.answers.get? id with
  | none =>
      rw [c.beginReturn_of_none result ha]
      rfl
  | some a =>
      obtain ⟨begun, ms, x, hs, p, a', heq, -⟩ := c.beginReturn_shape result ha
      rw [heq]

theorem transport_beginDisconnect (c : Connection) (e : Error) :
    (c.beginDisconnect e).2.transport = c.transport := by
  rcases c.beginDisconnect_shape e with ⟨heq, -⟩ | ⟨-, ms, hs, p, heq, -⟩ <;> rw [heq]
  rfl

theorem transport_freeSender (c : Connection) (t : TaskId) : (c.freeSender t).transport = c.transport := by
  unfold freeSender
  split <;> rfl

theorem transport_dropTask (c : Connection) (t : TaskId) : (c.dropTask t).transport = c.transport := by
  have hfree := transport_freeSender { c with tasks := c.tasks.erase t } t
  unfold dropTask
  split
  · rfl
  · dsimp only
    split
    · exact (transport_cancelReturn _ _).trans hfree
    · exact (transport_endReturn _ _).trans hfree
    · exact hfree

theorem transport_reportUnlessGone (c : Connection) (e : Error) :
    (c.reportUnlessGone e).transport = c.transport := by
  unfold reportUnlessGone
  split <;> rfl

theorem transport_awaitShutdown (c : Connection) (gate : Option GateId) :
    (c.awaitShutdown gate).2.transport = c.transport := by
  unfold awaitShutdown
  split
  · rfl
  · split
    · exact c.transport_reportUnlessGone _
    · rfl

theorem sent_startShutdown (c : Connection) (e : Error) :
    (c.startShutdown e).2.transport.sent = c.transport.sent := by
  unfold startShutdown
  rw [transport_awaitShutdown]
  rfl

theorem accepts_transmit (c : Connection) (who : Option CallId) (e : Envelope) (gate : Option GateId) :
    c.Accepts (some e) (c.transmit who e gate).2 := by
  unfold transmit
  split
  · exact .of_eq rfl
  · dsimp only
    split
    · exact .of_eq rfl
    · intro x hx
      rcases List.mem_append.1 hx with hold | hnew
      · exact Or.inl hold
      · exact Or.inr (congrArg some (List.mem_singleton.1 hnew).symm)

theorem accepts_pollSend (c : Connection) (t : TaskId) (who : Option CallId) (send : SendStage) :
    c.Accepts (some send.envelope) (c.pollSend t who send).2 := by
  cases send with
  | transmitting e gate => exact c.accepts_transmit who e gate
  | waiting e =>
      simp only [pollSend]
      split
      · exact .of_eq rfl
      · exact accepts_transmit (c.handOver t who e).2 who e _

theorem accepts_awaitReturn (c : Connection) (t : TaskId) (h : Handle) (send : SendStage) (f : Bool) :
    c.Accepts (some send.envelope) (c.awaitReturn t h send f).2 := by
  have hsend := c.accepts_pollSend t (some h.call) send
  have hsettle : ∀ d : Connection, (d.settleReturn h).2.transport.sent = d.transport.sent :=
    fun d => congrArg Transport.sent (d.transport_endReturn h.id)
  unfold awaitReturn
  split
  · next heq => rw [heq] at hsend; exact hsend
  · next heq => rw [heq] at hsend; exact hsend.still (hsettle _)
  · next heq => rw [heq] at hsend; exact hsend.still (hsettle _)

theorem accepts_awaitAbort (c : Connection) (t : TaskId) (e : Error) (send : SendStage) :
    c.Accepts (some send.envelope) (c.awaitAbort t e send).2 := by
  have hsend := c.accepts_pollSend t none send
  unfold awaitAbort
  split
  · next heq => rw [heq] at hsend; exact hsend
  · next x c₁ heq =>
      rw [heq] at hsend
      exact hsend.still ((sent_startShutdown _ e).trans
        (congrArg Transport.sent (c₁.transport_reportUnlessGone x)))
  · next heq => rw [heq] at hsend; exact hsend.still (sent_startShutdown _ e)

/-- The envelope of the message that a piece of work has on its way out, once it has begun what it is to
    begin. -/
def offered (c : Connection) (work : Work) : Option Envelope :=
  (c.offers work).map fun x => x.2.envelope

theorem accepts_pollReturn (c : Connection) (t : TaskId) (h : Handle) (stage : ReturnStage) :
    c.Accepts (c.offered (.sendReturn h stage)) (c.pollReturn t h stage).2 := by
  cases stage with
  | draining w => exact .of_eq rfl
  | sending send f => exact c.accepts_awaitReturn t h send f
  | unbegun result =>
      have hbegin := congrArg Transport.sent (c.transport_beginReturn h.id result)
      simp only [pollReturn, offered, offers, onItsWay]
      split
      · next heq => rw [heq] at hbegin; exact .of_eq hbegin
      · next e f c₁ heq =>
          rw [heq] at hbegin ⊢
          exact (c₁.accepts_awaitReturn t h (.waiting e) f).since hbegin
      · next heq =>
          rw [heq] at hbegin
          exact .of_eq ((congrArg Transport.sent (transport_endReturn _ h.id)).trans hbegin)

theorem accepts_pollDisconnect (c : Connection) (t : TaskId) (e : Error) (stage : DisconnectStage) :
    c.Accepts ((c.abortOf e stage).map SendStage.envelope) (c.pollDisconnect t e stage).2 := by
  cases stage with
  | aborting send => exact c.accepts_awaitAbort t e send
  | shuttingDown gate => exact .of_eq (congrArg Transport.sent (c.transport_awaitShutdown gate))
  | unbegun =>
      have hbegin := congrArg Transport.sent (c.transport_beginDisconnect e)
      simp only [pollDisconnect, abortOf]
      split
      · next heq => rw [heq] at hbegin; exact .of_eq hbegin
      · next envelope c₁ heq =>
          rw [heq] at hbegin ⊢
          exact (c₁.accepts_awaitAbort t e (.waiting envelope)).since hbegin
      · next heq => rw [heq] at hbegin; exact .of_eq ((sent_startShutdown _ e).trans hbegin)

theorem transport_beforeEnd (c : Connection) (work : Work) : (c.beforeEnd work).transport = c.transport := by
  unfold beforeEnd
  split <;> rfl

/-- What work that ends a connection has on its way out is the abort. -/
theorem offered_of_endsBy {c : Connection} {work : Work} {e : Error} {stage : DisconnectStage}
    (goes : c.endsBy work = some (e, stage)) :
    c.offered work = ((c.beforeEnd work).abortOf e stage).map SendStage.envelope := by
  cases work with
  | sendReturn h stage => exact absurd goes (by simp [endsBy, Work.ending?])
  | _ => simp [offered, offers, goes, Function.comp_def]

theorem accepts_run (c : Connection) (t : TaskId) (work : Work) :
    c.Accepts (c.offered work) (c.run t work).2 := by
  cases c.runs t work with
  | @completes h stage run left =>
      rw [run]
      exact c.accepts_pollReturn t h stage
  | @admits id token free run =>
      rw [run]
      exact .of_eq (congrArg Transport.sent (c.transport_newAnswer id token))
  | refuses stays run =>
      rw [run]
      exact .of_eq rfl
  | @ends _ e stage goes run left halts =>
      rw [run, offered_of_endsBy goes]
      exact (accepts_pollDisconnect _ t e stage).since (congrArg Transport.sent (c.transport_beforeEnd work))

/-- The message that an action may have accepted: that of the task that it polls. -/
def posts (c : Connection) : Action → Option Envelope
  | .poll t =>
      match c.tasks.get? t with
      | some task => if task.guard.any c.isCanceled then none else c.offered task.work
      | none => none
  | _ => none

theorem posts_of_live {c : Connection} {t : TaskId} {task : Task} (hget : c.tasks.get? t = some task)
    (hlive : task.guard.any c.isCanceled = false) : c.posts (.poll t) = c.offered task.work := by
  simp [posts, hget, hlive]

/-- An action has at most one message accepted, that of the task that it polls. -/
theorem accepts_step (c : Connection) (action : Action) : c.Accepts (c.posts action) (c.step action).2 := by
  cases action with
  | poll t =>
      cases hget : c.tasks.get? t with
      | none =>
          have hstay : (c.step (.poll t)).2 = c := by simp [step, poll, hget]
          rw [hstay]
          exact .of_eq rfl
      | some task =>
          cases hlive : task.guard.any c.isCanceled with
          | true =>
              have hdrops : c.Drops t (.poll t) := ⟨rfl, task, hget, hlive⟩
              rw [step_of_drops hget hdrops]
              exact .of_eq (congrArg Transport.sent (c.transport_dropTask t))
          | false =>
              obtain ⟨-, ts, hstep⟩ := step_poll_of_live hget hlive
              rw [posts_of_live hget hlive, hstep]
              exact c.accepts_run t task.work
  | takeSent => exact fun e he => absurd he (by simp [step])
  | newAnswer id token => exact .of_eq (congrArg Transport.sent (c.transport_newAnswer id token))
  | allocateResults h size =>
      have hbuild : (c.allocateResults h.id size).2.transport = c.transport := by
        rcases c.allocateResults_shape h.id size with heq | ⟨a, e, ms, -, -, heq⟩ <;> rw [heq]
      refine .of_eq (congrArg Transport.sent ?_)
      rw [step_allocateResults_snd]
      split
      · exact hbuild
      · rfl
  | setBootstrap h cap =>
      have hbuild : (c.setBootstrap h.id cap).2.transport = c.transport := by
        rcases c.setBootstrap_shape h.id cap with heq | ⟨a, e, ms, -, -, heq⟩ <;> rw [heq]
      refine .of_eq (congrArg Transport.sent ?_)
      rw [step_setBootstrap_snd]
      split
      · exact hbuild
      · rfl
  | edit ref change =>
      simp only [step]
      split <;> exact .of_eq rfl
  | sendReturn h result guard =>
      simp only [step]
      split <;> exact .of_eq rfl
  | dropHandle h =>
      simp only [step]
      split
      · exact .of_eq (congrArg Transport.sent (transport_cancelReturn _ h.id))
      · exact .of_eq rfl
  | newCaller name mode =>
      simp only [step]
      split <;> exact .of_eq rfl
  | setPipeline id name =>
      simp only [step]
      split
      · rcases c.setPipeline_shape id name with heq | ⟨a, -, -, heq⟩ <;> rw [heq] <;> exact .of_eq rfl
      · exact .of_eq rfl
  | forward id call =>
      have hforward : (c.forward id call).2.transport = c.transport := by
        obtain ⟨cs, ds, es, heq, -⟩ := c.forward_shape id call
        rw [heq]
      refine .of_eq (congrArg Transport.sent ?_)
      rw [step_forward_snd]
      exact hforward
  | acknowledge name count =>
      simp only [step]
      split
      · exact .of_eq rfl
      · refine .of_eq (congrArg Transport.sent ?_)
        obtain ⟨cs, ds, heq⟩ := c.acknowledgeHeld_shape name _
        rw [heq]
  | finish id releaseCaps =>
      refine .of_eq (congrArg Transport.sent ?_)
      simp only [step]
      cases hget : c.answers.get? id with
      | none => rw [c.finish_of_none releaseCaps hget]; rfl
      | some a =>
          obtain ⟨hs, ts, heq⟩ := c.finish_shape releaseCaps hget
          rw [heq]
          rfl
  | dropTask t =>
      simp only [step]
      split
      · exact .of_eq (congrArg Transport.sent (c.transport_dropTask t))
      · exact .of_eq rfl
  | configure setting => cases setting <;> exact .of_eq rfl
  | _ => exact .of_eq rfl

/-- What a task has on its way out after a step it had before, or it is the message that may have been
    accepted. -/
theorem outgoing_step {c : Connection} (hc : Reachable c) (action : Action) {u : TaskId}
    {x : Option CallId × SendStage} (hout : (c.step action).2.outgoing u = some x) :
    c.outgoing u = some x ∨ c.posts action = some x.2.envelope := by
  cases laneStep hc action with
  | idle lane outgoing => exact Or.inl (outgoing u ▸ hout)
  | @drops t drops lane gone others =>
      by_cases hu : u = t
      · rw [hu, gone] at hout
        exact absurd hout (by simp)
      · exact Or.inl (others u hu ▸ hout)
  | @runs t task isPoll found live run others =>
      by_cases hu : u = t
      · subst hu isPoll
        rw [posts_of_live found live]
        exact Or.inr (run.envelope hout)
      · exact Or.inl (others u hu ▸ hout)

/-! ## Parting -/

/-- A completion that begins has its record part with the return. -/
theorem sealed_beginReturn {c : Connection} (hc : Reachable c) {id : AnswerId} {result : Except Error Unit}
    {e : Envelope} (hbegun : (c.beginReturn id result).1.bind BegunReturn.envelope = some e) :
    (c.beginReturn id result).2.Sealed e.arena := by
  obtain ⟨a, d, m, ha, hmsg, rfl, -⟩ := sealed_of_beginReturn hbegun
  obtain ⟨begun, c', a', heq, h⟩ := c.beginReturn_begun hc.reckoning.exports ha
    (fun e he => ((hc.reckoning.answers id a ha).unbegun e he).1) result
  rw [heq]
  refine ⟨Nat.lt_of_lt_of_le (hc.stored.opened ha hmsg).1 h.messages.next, fun {j x e'} hx he' hsame => ?_⟩
  rcases Table.get?_of_replaced (Or.inl h.answers) hx with ⟨-, rfl⟩ | ⟨hne, hx⟩
  · exact absurd (h.message.symm.trans he') (by simp)
  · exact hne (hc.stored.apart ha hx hmsg he' hsame)

theorem next_le_reserveAbort (c : Connection) {e : Error} {x : Envelope} (h : (c.reserveAbort e).1 = .ok x) :
    c.messages.next ≤ x.arena ∧ x.arena < (c.reserveAbort e).2.messages.next := by
  obtain ⟨-, hnew⟩ := c.adds_reserve
  unfold reserveAbort at h ⊢
  split at h
  · exact absurd h (by simp)
  · next envelope c₁ heq =>
      rw [heq] at hnew
      obtain ⟨rfl, hlt⟩ := hnew envelope rfl
      dsimp only at h ⊢
      split at h
      · exact absurd h (by simp)
      · obtain rfl := Except.ok.inj h
        exact ⟨Nat.le_refl _, hlt⟩

/-- The abort of a connection was never in a record. -/
theorem sealed_beginDisconnect {c : Connection} (hc : c.books.Stored) {e : Error} {x : Envelope}
    (h : (c.beginDisconnect e).1 = some (.ok x)) : (c.beginDisconnect e).2.Sealed x.arena := by
  rcases c.beginDisconnect_shape e with ⟨heq, -⟩ | ⟨hup, ms, hs, p, heq, -⟩
  · exact absurd ((congrArg Prod.fst heq).symm.trans h) (by simp)
  · have hdown : ¬ c.isDown = true := by simp [hup]
    have hnew : c.messages.next ≤ x.arena ∧ x.arena < (c.beginDisconnect e).2.messages.next := by
      unfold beginDisconnect at h ⊢
      rw [if_neg hdown] at h ⊢
      exact next_le_reserveAbort (c.breakLink e) (Option.some.inj h)
    refine ⟨hnew.2, fun {j b e'} hb he' hsame => ?_⟩
    rw [heq] at hb
    have hget : (c.answers.mapValues fun a => { a with caller := none }).get? j = some b := hb
    rw [Table.get?_mapValues] at hget
    obtain ⟨a, ha, rfl⟩ := Option.map_eq_some_iff.1 hget
    exact absurd (hsame ▸ (hc.opened ha he').1) (Nat.not_lt_of_le hnew.1)

/-- The messages that have left their records, or were never in one, are sealed. -/
structure Parted (c : Connection) : Prop where
  outgoing : ∀ t x, c.outgoing t = some x → c.Sealed x.2.envelope.arena
  sent : ∀ e ∈ c.transport.sent, c.Sealed e.arena

theorem outgoing?_of_ending {work : Work} {e : Error} {send : SendStage}
    (h : work.ending? = some (e, .aborting send)) : work.outgoing? = some (none, send) := by
  unfold Work.ending? at h
  split at h
  · obtain ⟨-, rfl⟩ := Prod.mk.inj (Option.some.inj h)
    rfl
  · obtain ⟨-, rfl⟩ := Prod.mk.inj (Option.some.inj h)
    rfl
  · exact absurd h (by simp)

/-- What a task has on its way out when it is polled is sealed afterwards. -/
theorem sealed_of_offered {c : Connection} (hc : Reachable c) (h : c.Parted) {t : TaskId} {task : Task}
    (hget : c.tasks.get? t = some task) (hlive : task.guard.any c.isCanceled = false) {e : Envelope}
    (hoffered : c.offered task.work = some e) : (c.step (.poll t)).2.Sealed e.arena := by
  obtain ⟨work, guard⟩ := task
  obtain ⟨-, ts, hstep⟩ := step_poll_of_live hget hlive
  have hbefore : ∀ x, work.outgoing? = some x → (c.step (.poll t)).2.Sealed x.2.envelope.arena :=
    fun x hwork => (sealed_step (h.outgoing t x ((outgoing_of_get? hget).trans hwork)) (.poll t)).1
  cases c.runs t work with
  | @completes k stage run left =>
      obtain ⟨x, hx, rfl⟩ := Option.map_eq_some_iff.1 hoffered
      obtain ⟨y, hway, rfl⟩ := Option.map_eq_some_iff.1 hx
      cases stage with
      | draining w => exact absurd hway (by simp [onItsWay])
      | sending send f =>
          obtain rfl := Option.some.inj hway
          exact hbefore _ rfl
      | unbegun result =>
          obtain ⟨d, hd, rfl⟩ := Option.map_eq_some_iff.1 hway
          have htransfer : c.transfer (.poll t) = (c.beginReturn k.id result).2 := by
            simp [transfer, hget, hlive, begun]
          have hparts : (c.transfer (.poll t)).Sealed d.arena := htransfer ▸ sealed_beginReturn hc hd
          exact ((spares_rule d.arena).step_of_ne ⟨fun _ _ => trivial, fun _ _ _ _ _ => trivial⟩
            (by simp) (by simp) hparts).1
  | @admits id token free run =>
      exact absurd hoffered (by simp [offered, offers, endsBy, Table.contains, free])
  | @refuses id token stays run => exact absurd hoffered (by simp [offered, offers, stays])
  | @ends _ err stage goes run left halts =>
      rw [offered_of_endsBy goes] at hoffered
      obtain ⟨send, habort, rfl⟩ := Option.map_eq_some_iff.1 hoffered
      cases stage with
      | shuttingDown gate => exact absurd habort (by simp [abortOf, DisconnectStage.send?])
      | aborting send' =>
          obtain rfl := Option.some.inj habort
          exact hbefore (none, send') (outgoing?_of_ending (ending_of_endsBy goes rfl))
      | unbegun =>
          obtain ⟨d, hd, rfl⟩ := Option.map_eq_some_iff.1 habort
          obtain ⟨r, hr, hrd⟩ := Option.bind_eq_some_iff.1 hd
          obtain rfl : r = .ok d := eq_ok_of_toOption hrd
          have hstored : (c.beforeEnd work).books.Stored := by
            rw [books_beforeEnd]
            exact hc.stored
          have hended := (spares_rule d.arena).toRunRule.parts.pollDisconnect (c.beforeEnd work) t err .unbegun
            (sealed_beginDisconnect hstored hr)
          rw [hstep, run]
          exact ⟨hended.1.lt, hended.1.parted⟩

theorem Parted.step {c : Connection} (h : c.Parted) (hc : Reachable c) (action : Action) :
    (c.step action).2.Parted := by
  have hposted : ∀ e, c.posts action = some e → (c.step action).2.Sealed e.arena := by
    intro e he
    unfold posts at he
    split at he
    · split at he
      · next task hget =>
          split at he
          · exact absurd he (by simp)
          · next hlive => exact sealed_of_offered hc h hget (by simpa using hlive) he
      · exact absurd he (by simp)
    · exact absurd he (by simp)
  constructor
  case outgoing =>
    intro t x hout
    rcases outgoing_step hc action hout with hbefore | hnew
    · exact (sealed_step (h.outgoing t x hbefore) action).1
    · exact hposted _ hnew
  case sent =>
    intro e he
    rcases c.accepts_step action e he with hbefore | hnew
    · exact (sealed_step (h.sent e hbefore) action).1
    · exact hposted e hnew

theorem Reachable.parted {c : Connection} (hc : Reachable c) : c.Parted := by
  induction hc with
  | initial options => exact ⟨fun t x h => absurd h (by simp [outgoing, Connection.initial]),
      fun e he => absurd he (by simp [Connection.initial])⟩
  | step action hprev ih => exact ih.step hprev action

/-! ## Who refers to an arena -/

/-- An arena is referred to by a record, for its return or for its results, by what is on its way out, or by
    what the transport keeps. -/
theorem mem_arenas_iff (c : Connection) (r : ArenaId) : r ∈ c.arenas ↔
    (∃ id a, c.answers.get? id = some a ∧
      (a.message.map Envelope.arena = some r ∨ a.results.map ResultsRef.arena = some r)) ∨
    (∃ t x, c.outgoing t = some x ∧ x.2.envelope.arena = r) ∨
    ∃ e ∈ c.transport.sent, e.arena = r := by
  have hread : ∀ {α : Type} (f : Answer → Option α) (g : α → ArenaId),
      r ∈ (c.answers.values.filterMap f).map g ↔ ∃ id a, c.answers.get? id = some a ∧ (f a).map g = some r := by
    intro α f g
    simp only [List.map_filterMap, List.mem_filterMap, Table.mem_values_iff]
    constructor
    · rintro ⟨a, ⟨id, ha⟩, h⟩
      exact ⟨id, a, ha, h⟩
    · rintro ⟨id, a, ha, h⟩
      exact ⟨a, ⟨id, ha⟩, h⟩
  have hway : r ∈ (c.tasks.values.filterMap (·.work.send?)).map (·.envelope.arena) ↔
      ∃ t x, c.outgoing t = some x ∧ x.2.envelope.arena = r := by
    simp only [List.map_filterMap, List.mem_filterMap, Table.mem_values_iff, Work.send?_eq, outgoing,
      Option.map_map, Option.map_eq_some_iff, Option.bind_eq_some_iff]
    constructor
    · rintro ⟨task, ⟨t, hget⟩, x, hx, hr⟩
      exact ⟨t, x, ⟨task, hget, hx⟩, hr⟩
    · rintro ⟨t, x, ⟨task, hget, hx⟩, hr⟩
      exact ⟨task, ⟨t, hget⟩, x, hx, hr⟩
  unfold arenas
  rw [List.mem_append, List.mem_append, List.mem_append, hread, hread, hway, List.mem_map, or_assoc, or_assoc,
    ← or_assoc]
  refine or_congr_left ?_
  simp only [← exists_or, ← and_or_left]

/-- The arena of a return that a record holds is referred to by that record alone, and for that return. -/
structure Unshared (c : Connection) (id : AnswerId) (r : ArenaId) : Prop where
  records : ∀ j b, c.answers.get? j = some b → b.message.map Envelope.arena = some r → j = id
  results : ∀ j b, c.answers.get? j = some b → b.results.map ResultsRef.arena ≠ some r
  outgoing : ∀ t x, c.outgoing t = some x → x.2.envelope.arena ≠ r
  sent : ∀ e ∈ c.transport.sent, e.arena ≠ r

theorem Reachable.unshared {c : Connection} (hc : Reachable c) {id : AnswerId} {a : Answer} {e : Envelope}
    (ha : c.answers.get? id = some a) (he : a.message = some e) : c.Unshared id e.arena := by
  constructor
  case records =>
    intro j b hb hr
    obtain ⟨d, hd, harena⟩ := Option.map_eq_some_iff.1 hr
    exact hc.stored.apart ha hb he hd harena
  case results =>
    intro j b hb hr
    obtain ⟨d, hd, harena⟩ := Option.map_eq_some_iff.1 hr
    exact hc.stored.retained hb ha hd he harena.symm
  case outgoing => exact fun t x hx hr => (hc.parted.outgoing t x hx).parted ha he hr.symm
  case sent => exact fun d hd hr => (hc.parted.sent d hd).parted ha he hr.symm

end Connection

end Callee
