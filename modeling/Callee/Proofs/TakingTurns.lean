import Callee.Proofs.EndingOnce
import Callee.Proofs.Lane
import Mathlib.Data.List.Nodup

set_option autoImplicit false

/-! # One message at a time

A message has the way out from the moment it is handed to the transport until its transmission ends or its
task is dropped, and no other message is handed over in the meantime. So the way is taken exactly while one
task transmits (`InTurn`), and the transport accepts messages in the order in which they took the way.

A task that waits is not in line: the first one that is polled when the way is free takes it. If the task is
dropped instead, nothing changes for the others, and its message is never handed over
(`not_mem_turns_of_dropped`). -/

namespace Callee

/-- The message that a piece of work has on its way out is its return, or the abort of the end that it looks
    after. -/
theorem Work.outgoing?_cases {work : Work} {who : Option CallId} {send : SendStage}
    (h : work.outgoing? = some (who, send)) :
    (∃ k f, work = .sendReturn k (.sending send f) ∧ who = some k.call) ∨
      ∃ e, work.ending? = some (e, .aborting send) ∧ who = none := by
  have habort : ∀ stage : DisconnectStage, stage.send?.map (none, ·) = some (who, send) →
      stage = .aborting send ∧ who = none := by
    intro stage hstage
    cases stage with
    | aborting send' =>
        obtain ⟨rfl, rfl⟩ := Prod.mk.inj (Option.some.inj hstage)
        exact ⟨rfl, rfl⟩
    | unbegun => exact absurd hstage (by simp [DisconnectStage.send?])
    | shuttingDown gate => exact absurd hstage (by simp [DisconnectStage.send?])
  cases work with
  | sendReturn k stage =>
      cases stage with
      | sending send' f =>
          obtain ⟨rfl, rfl⟩ := Prod.mk.inj (Option.some.inj h)
          exact Or.inl ⟨k, f, rfl, rfl⟩
      | unbegun result => exact absurd h (by simp [outgoing?, ReturnStage.send?])
      | draining w => exact absurd h (by simp [outgoing?, ReturnStage.send?])
  | disconnect e stage =>
      obtain ⟨rfl, rfl⟩ := habort stage h
      exact Or.inr ⟨e, rfl, rfl⟩
  | accept stage =>
      cases stage with
      | unbegun id token => exact absurd h (by simp [outgoing?])
      | refusing e stage =>
          obtain ⟨rfl, rfl⟩ := habort stage h
          exact Or.inr ⟨e, rfl, rfl⟩

namespace Connection

open Books

/-! ## Messages that wait and messages at the transport -/

/-- A message of a task waits for its turn. -/
def StandsBy (c : Connection) (t : TaskId) (who : Option CallId) (e : Envelope) : Prop :=
  c.outgoing t = some (who, .waiting e)

/-- A message of a task is at the transport: it was handed over, and its transmission has not ended. -/
def Transmits (c : Connection) (t : TaskId) (x : Turn) : Prop :=
  ∃ e gate, c.outgoing t = some (x.1, .transmitting e gate) ∧ e.root = x.2

theorem StandsBy.not_transmits {c : Connection} {t : TaskId} {who : Option CallId} {e : Envelope}
    (h : c.StandsBy t who e) (x : Turn) : ¬ c.Transmits t x := by
  rintro ⟨e', gate, h', -⟩
  exact absurd (h.symm.trans h') (by simp)

theorem transmits_congr {c c' : Connection} {t : TaskId} (h : c'.outgoing t = c.outgoing t) (x : Turn) :
    c'.Transmits t x ↔ c.Transmits t x := by
  unfold Transmits
  rw [h]

/-- A task without a message on its way out transmits none. -/
theorem not_transmits_of_none {c : Connection} {t : TaskId} (h : c.outgoing t = none) (x : Turn) :
    ¬ c.Transmits t x := by
  rintro ⟨e, gate, hout, -⟩
  exact absurd (h.symm.trans hout) (by simp)

theorem offers_of_outgoing? (c : Connection) {work : Work} {x : Option CallId × SendStage}
    (h : work.outgoing? = some x) : c.offers work = some x := by
  obtain ⟨who, send⟩ := x
  rcases Work.outgoing?_cases h with ⟨k, f, rfl, rfl⟩ | ⟨e, hending, rfl⟩
  · rfl
  · have hgoes := c.endsBy_of_ending hending
    cases work with
    | sendReturn k stage => exact absurd hending (by simp [Work.ending?])
    | _ => simp only [offers, hgoes, Option.bind_some, abortOf, DisconnectStage.send?, Option.map_some]

/-- What is offered was not at the transport before, or it was so already. -/
theorem outgoing?_of_offers {c : Connection} {work : Work} {who : Option CallId} {e : Envelope}
    {gate : Option GateId} (h : c.offers work = some (who, .transmitting e gate)) :
    work.outgoing? = some (who, .transmitting e gate) := by
  cases hout : work.outgoing? with
  | some x => exact (c.offers_of_outgoing? hout).symm.trans h
  | none =>
      exfalso
      -- whatever begins now waits first
      have habort : ∀ (d : Connection) (x : Error) (stage : DisconnectStage),
          stage.send?.map ((none : Option CallId), ·) = none →
          (d.abortOf x stage).map (none, ·) ≠ some (who, SendStage.transmitting e gate) := by
        intro d x stage hstage heq
        cases stage with
        | unbegun =>
            simp only [abortOf, Option.map_map] at heq
            obtain ⟨envelope, -, hsend⟩ := Option.map_eq_some_iff.1 heq
            exact absurd (Prod.mk.inj hsend).2 (by simp)
        | aborting send => exact absurd hstage (by simp [DisconnectStage.send?])
        | shuttingDown g => exact absurd heq (by simp [abortOf, DisconnectStage.send?])
      cases work with
      | sendReturn k stage =>
          obtain ⟨p, hway, hp⟩ := Option.map_eq_some_iff.1 h
          cases stage with
          | unbegun result =>
              obtain ⟨envelope, -, rfl⟩ := Option.map_eq_some_iff.1 hway
              exact absurd (Prod.mk.inj hp).2 (by simp)
          | sending send f => exact absurd hout (by simp [Work.outgoing?, ReturnStage.send?])
          | draining w => exact absurd hway (by simp [onItsWay])
      | disconnect x stage => exact habort _ x stage hout h
      | accept stage =>
          cases stage with
          | refusing x stage => exact habort _ x stage hout h
          | unbegun id token =>
              obtain ⟨⟨x, stage⟩, hgoes, hx⟩ := Option.bind_eq_some_iff.1 h
              simp only [endsBy] at hgoes
              split at hgoes
              · obtain ⟨rfl, rfl⟩ := Prod.mk.inj (Option.some.inj hgoes)
                exact habort _ _ .unbegun rfl hx
              · exact absurd hgoes (by simp)

/-! ## The lane is used in turn -/

/-- The way is taken exactly while a task transmits, whose message was the last to be handed over, and the
    messages that were accepted are among those that were handed over, in the same order. -/
structure InTurn (c : Connection) : Prop where
  holder : ∀ t, c.lane.sender = some t ↔ ∃ x, c.Transmits t x
  current : ∀ t x, c.Transmits t x → ∃ rest, c.lane.turns = x :: rest ∧ c.lane.arrivals.Sublist rest
  order : c.lane.arrivals.Sublist c.lane.turns

namespace InTurn

variable {c c' : Connection}

theorem unique (h : c.InTurn) {t u : TaskId} {x y : Turn} (ht : c.Transmits t x)
    (hu : c.Transmits u y) : u = t ∧ y = x := by
  have hsender := (h.holder t).2 ⟨x, ht⟩
  obtain rfl := Option.some.inj (hsender.symm.trans ((h.holder u).2 ⟨y, hu⟩))
  obtain ⟨rest, hturns, -⟩ := h.current t x ht
  obtain ⟨rest', hturns', -⟩ := h.current t y hu
  exact ⟨rfl, (List.cons.inj (hturns'.symm.trans hturns)).1⟩

/-- Nobody transmits while the way is free. -/
theorem not_transmits (h : c.InTurn) (hfree : c.lane.sender = none) (t : TaskId) (x : Turn) :
    ¬ c.Transmits t x := by
  intro ht
  exact absurd (hfree.symm.trans ((h.holder t).2 ⟨x, ht⟩)) (by simp)

theorem of_free (hfree : c.lane.sender = none) (hnone : ∀ t x, ¬ c.Transmits t x)
    (order : c.lane.arrivals.Sublist c.lane.turns) : c.InTurn := by
  refine ⟨fun t => ⟨fun hsender => ?_, ?_⟩, fun t x ht => absurd ht (hnone t x), order⟩
  · exact absurd (hfree.symm.trans hsender) (by simp)
  · rintro ⟨x, ht⟩
    exact absurd ht (hnone t x)

theorem of_same (h : c.InTurn) (lane : c'.lane = c.lane)
    (same : ∀ t x, c'.Transmits t x ↔ c.Transmits t x) : c'.InTurn := by
  refine ⟨fun t => ?_, fun t x ht => ?_, ?_⟩
  · rw [lane, h.holder]
    exact exists_congr fun x => (same t x).symm
  · rw [lane]
    exact h.current t x ((same t x).1 ht)
  · rw [lane]
    exact h.order

/-- Looking after a message at the transport, which is the only one, leaves the lane in order. -/
theorem of_carries {b : Lane} {t : TaskId} {who : Option CallId} {e : Envelope} {gate : Option GateId}
    {left : Option SendStage} {rest : List Turn} (sender : b.sender = some t)
    (turns : b.turns = (who, e.root) :: rest) (arrivals : b.arrivals.Sublist rest)
    (carries : b.Carries who e gate left c'.lane) (own : c'.outgoing t = left.map (who, ·))
    (others : ∀ u x, u ≠ t → ¬ c'.Transmits u x) : c'.InTurn := by
  have hgone : left = none → ∀ u x, ¬ c'.Transmits u x := by
    rintro rfl u x
    by_cases heq : u = t
    · exact heq ▸ not_transmits_of_none own x
    · exact others u x heq
  generalize hlane : c'.lane = b' at carries
  cases carries with
  | refused =>
      refine of_free (by rw [hlane]; rfl) (hgone rfl) ?_
      rw [hlane]
      exact turns ▸ arrivals.cons _
  | accepted =>
      refine of_free (by rw [hlane]; rfl) (hgone rfl) ?_
      rw [hlane]
      exact turns ▸ arrivals.cons_cons _
  | held =>
      have hown : c'.Transmits t (who, e.root) := ⟨e, gate, own, rfl⟩
      have hall : ∀ u x, c'.Transmits u x → u = t ∧ x = (who, e.root) := by
        intro u x hu
        obtain rfl : u = t := Classical.not_not.1 fun hne => others u x hne hu
        obtain ⟨e', gate', hout, hx⟩ := hu
        obtain ⟨hwho, hsend⟩ := Prod.mk.inj (Option.some.inj (hout.symm.trans own))
        obtain ⟨rfl, -⟩ := SendStage.transmitting.inj hsend
        exact ⟨rfl, Prod.ext hwho hx.symm⟩
      refine ⟨fun u => ?_, fun u x hu => ?_, ?_⟩
      · rw [hlane, sender]
        constructor
        · rintro heq
          obtain rfl := Option.some.inj heq
          exact ⟨_, hown⟩
        · rintro ⟨x, hu⟩
          rw [(hall u x hu).1]
      · obtain ⟨rfl, rfl⟩ := hall u x hu
        exact ⟨rest, hlane ▸ turns, hlane ▸ arrivals⟩
      · rw [hlane, turns]
        exact arrivals.cons _

/-- Running a task leaves the lane in order. -/
theorem of_runs (h : c.InTurn) {t : TaskId} {task : Task} (found : c.tasks.get? t = some task)
    (run : c.lane.Runs t (c.offers task.work) (c'.outgoing t) c'.lane)
    (others : ∀ u, u ≠ t → c'.outgoing u = c.outgoing u) : c'.InTurn := by
  have hother : ∀ u x, u ≠ t → (c'.Transmits u x ↔ c.Transmits u x) := fun u x hu =>
    transmits_congr (others u hu) x
  -- nothing is at the transport for a task that does not say so
  have hidle : (∀ x, ¬ c.Transmits t x) → (∀ x, ¬ c'.Transmits t x) →
      ∀ u x, c'.Transmits u x ↔ c.Transmits u x := by
    intro hbefore hafter u x
    by_cases hu : u = t
    · subst hu
      exact iff_of_false (hafter x) (hbefore x)
    · exact hother u x hu
  generalize hoffers : c.offers task.work = offered at run
  generalize hlane : c'.lane = b' at run
  generalize hown : c'.outgoing t = left at run
  have htransmits : ∀ x, c.Transmits t x → ∃ e gate, offered = some (x.1, .transmitting e gate) := by
    rintro x ⟨e, gate, hout, -⟩
    rw [outgoing_of_get? found] at hout
    exact ⟨e, gate, hoffers.symm.trans (c.offers_of_outgoing? hout)⟩
  cases run with
  | nothing =>
      refine h.of_same hlane (hidle (fun x ht => ?_) (not_transmits_of_none hown))
      obtain ⟨e, gate, heq⟩ := htransmits x ht
      exact absurd heq (by simp)
  | @polls who send left b' polls =>
      cases polls with
      | waits busy =>
          have hstill : c'.StandsBy t who _ := hown
          refine h.of_same hlane (hidle (fun x ht => ?_) hstill.not_transmits)
          obtain ⟨e, gate, heq⟩ := htransmits x ht
          exact absurd heq (by simp)
      | @enters e gate _ _ free carries =>
          have order : (c.lane.enter t (who, e.root)).arrivals.Sublist c.lane.turns := h.order
          refine of_carries rfl rfl order (hlane ▸ carries) hown fun u x hu => ?_
          rw [hother u x hu]
          exact h.not_transmits free u x
      | @goesOn e gate _ _ carries =>
          have hown' : c.Transmits t (who, e.root) :=
            ⟨e, gate, (outgoing_of_get? found).trans (c.outgoing?_of_offers hoffers), rfl⟩
          obtain ⟨rest, hturns, harrivals⟩ := h.current t _ hown'
          refine of_carries ((h.holder t).2 ⟨_, hown'⟩) hturns harrivals (hlane ▸ carries) hown ?_
          intro u x hu
          rw [hother u x hu]
          exact fun ht => hu (h.unique hown' ht).1

/-- Dropping a task leaves the lane in order. -/
theorem of_drops (h : c.InTurn) {t : TaskId} (lane : c'.lane = c.lane.without t)
    (gone : c'.outgoing t = none) (others : ∀ u, u ≠ t → c'.outgoing u = c.outgoing u) :
    c'.InTurn := by
  have hgone : ∀ x, ¬ c'.Transmits t x := not_transmits_of_none gone
  have hother : ∀ u x, u ≠ t → (c'.Transmits u x ↔ c.Transmits u x) := fun u x hu =>
    transmits_congr (others u hu) x
  by_cases hsender : c.lane.sender = some t
  · rw [Lane.without, if_pos hsender] at lane
    refine of_free (by rw [lane]; rfl) (fun u x hu => ?_) ?_
    · by_cases heq : u = t
      · exact hgone x (heq ▸ hu)
      · obtain ⟨y, ht⟩ := (h.holder t).1 hsender
        exact heq (h.unique ht ((hother u x heq).1 hu)).1
    · rw [lane]
      exact h.order
  · rw [Lane.without, if_neg hsender] at lane
    refine h.of_same lane fun u x => ?_
    by_cases heq : u = t
    · subst heq
      exact iff_of_false (hgone x) fun ht => hsender ((h.holder u).2 ⟨x, ht⟩)
    · exact hother u x heq

end InTurn

theorem Reachable.inTurn {c : Connection} (hc : Reachable c) : c.InTurn := by
  induction hc with
  | initial options =>
      refine .of_free rfl (fun t => not_transmits_of_none ?_) (List.Sublist.refl _)
      simp [outgoing, Connection.initial]
  | @step c action hprev ih =>
      cases laneStep hprev action with
      | idle lane outgoing => exact ih.of_same lane fun t x => transmits_congr (outgoing t) x
      | drops drops lane gone others => exact ih.of_drops lane gone others
      | runs isPoll found live run others => exact ih.of_runs found run others

/-! ## Taking the way and leaving it -/

/-- A poll takes the way out, which is free, and hands a message over. The task keeps the way, unless the
    transmission ends at once. -/
structure Enters (c : Connection) (action : Action) (t : TaskId) (x : Turn) : Prop where
  isPoll : action = .poll t
  free : c.lane.sender = none
  turns : (c.step action).2.lane.turns = x :: c.lane.turns
  next : (c.step action).2.Transmits t x ∨ (c.step action).2.lane.sender = none

/-- What comes of a poll that takes the way out. -/
theorem enters_of_carries {c : Connection} {t : TaskId} {who : Option CallId} {e : Envelope}
    {gate : Option GateId} {left : Option SendStage} (free : c.lane.sender = none)
    (carries : (c.lane.enter t (who, e.root)).Carries who e gate left (c.step (.poll t)).2.lane)
    (own : (c.step (.poll t)).2.outgoing t = left.map (who, ·)) :
    c.Enters (.poll t) t (who, e.root) ∧ ((c.step (.poll t)).2.lane.arrivals = c.lane.arrivals ∨
      (c.step (.poll t)).2.lane.arrivals = (who, e.root) :: c.lane.arrivals) := by
  generalize hlane : (c.step (.poll t)).2.lane = b' at carries
  cases carries with
  | held => exact ⟨⟨rfl, free, congrArg Lane.turns hlane, Or.inl ⟨e, gate, own, rfl⟩⟩, Or.inl rfl⟩
  | refused =>
      exact ⟨⟨rfl, free, congrArg Lane.turns hlane, Or.inr (congrArg Lane.sender hlane)⟩, Or.inl rfl⟩
  | accepted =>
      exact ⟨⟨rfl, free, congrArg Lane.turns hlane, Or.inr (congrArg Lane.sender hlane)⟩, Or.inr rfl⟩

/-- What a poll does while its task transmits: nothing, or the transmission ends and the way is free. -/
theorem transmits_poll {c : Connection} {t : TaskId} {x : Turn} (ht : c.Transmits t x)
    (hlive : ¬ c.Drops t (.poll t)) :
    (c.step (.poll t)).2.Transmits t x ∧ (c.step (.poll t)).2.lane = c.lane ∨
      (c.step (.poll t)).2.outgoing t = none ∧ ((c.step (.poll t)).2.lane = c.lane.leave ∨
        (c.step (.poll t)).2.lane = { c.lane.leave with arrivals := x :: c.lane.arrivals }) := by
  obtain ⟨who, root⟩ := x
  obtain ⟨e, gate, hout, rfl⟩ := ht
  obtain ⟨task, hget, hwork⟩ := Option.bind_eq_some_iff.1 hout
  obtain ⟨hrun, -⟩ := runs_step_poll hget (live_of_not_drops hget hlive)
  rw [c.offers_of_outgoing? hwork] at hrun
  generalize hlane : (c.step (.poll t)).2.lane = b' at hrun
  generalize hown : (c.step (.poll t)).2.outgoing t = left at hrun
  cases hrun with
  | polls polls =>
      cases polls with
      | goesOn carries =>
          cases carries with
          | held => exact Or.inl ⟨⟨e, gate, hown, rfl⟩, rfl⟩
          | refused => exact Or.inr ⟨rfl, Or.inl rfl⟩
          | accepted => exact Or.inr ⟨rfl, Or.inr rfl⟩

/-- A message that waits is handed over by the first poll of its task that finds the way free, and by none
    that finds it taken. -/
theorem standsBy_poll {c : Connection} {t : TaskId} {who : Option CallId} {e : Envelope}
    (hwait : c.StandsBy t who e) (hlive : ¬ c.Drops t (.poll t)) :
    if c.lane.sender = none then c.Enters (.poll t) t (who, e.root)
    else (c.step (.poll t)).2.StandsBy t who e ∧ (c.step (.poll t)).2.lane = c.lane := by
  obtain ⟨task, hget, hwork⟩ := Option.bind_eq_some_iff.1 hwait
  obtain ⟨hrun, -⟩ := runs_step_poll hget (live_of_not_drops hget hlive)
  rw [c.offers_of_outgoing? hwork] at hrun
  generalize hlane : (c.step (.poll t)).2.lane = b' at hrun
  generalize hown : (c.step (.poll t)).2.outgoing t = left at hrun
  cases hrun with
  | polls polls =>
      cases polls with
      | waits busy =>
          rw [if_neg busy]
          exact ⟨hown, rfl⟩
      | enters free carries =>
          rw [if_pos free]
          exact (enters_of_carries free (hlane ▸ carries) hown).1

/-- What a poll does for a task whose message is not at the transport. -/
theorem lane_poll {c : Connection} {t : TaskId} (hnot : ∀ x, ¬ c.Transmits t x)
    (hlive : ¬ c.Drops t (.poll t)) : (c.step (.poll t)).2.lane = c.lane ∨
      ∃ x, c.Enters (.poll t) t x ∧ ((c.step (.poll t)).2.lane.arrivals = c.lane.arrivals ∨
        (c.step (.poll t)).2.lane.arrivals = x :: c.lane.arrivals) := by
  cases hget : c.tasks.get? t with
  | none =>
      have hstay : (c.step (.poll t)).2 = c := by simp [step, poll, hget]
      exact Or.inl (by rw [hstay])
  | some task =>
      obtain ⟨hrun, -⟩ := runs_step_poll hget (live_of_not_drops hget hlive)
      generalize hoffers : c.offers task.work = offered at hrun
      generalize hlane : (c.step (.poll t)).2.lane = b' at hrun
      generalize hown : (c.step (.poll t)).2.outgoing t = left at hrun
      cases hrun with
      | nothing => exact Or.inl rfl
      | polls polls =>
          cases polls with
          | waits busy => exact Or.inl rfl
          | @enters e gate _ _ free carries =>
              obtain ⟨henters, harrivals⟩ := enters_of_carries free (hlane ▸ carries) hown
              exact Or.inr ⟨_, henters, hlane ▸ harrivals⟩
          | @goesOn e gate _ _ carries =>
              have hout : c.outgoing t = some (_, .transmitting e gate) :=
                (outgoing_of_get? hget).trans (c.outgoing?_of_offers hoffers)
              exact absurd ⟨e, gate, hout, rfl⟩ (hnot (_, e.root))

/-- Nothing but its own poll and its own end takes the way from the task that has it. -/
theorem transmits_step {c : Connection} (hc : Reachable c) {t : TaskId} {x : Turn}
    (ht : c.Transmits t x) {action : Action} (hpoll : action ≠ .poll t) (hdrop : ¬ c.Drops t action) :
    (c.step action).2.Transmits t x ∧ (c.step action).2.lane = c.lane := by
  have hsender := (hc.inTurn.holder t).2 ⟨x, ht⟩
  cases laneStep hc action with
  | idle lane outgoing => exact ⟨(transmits_congr (outgoing t) x).2 ht, lane⟩
  | @drops u drops lane gone others =>
      have hne : t ≠ u := fun heq => hdrop (heq ▸ drops)
      refine ⟨(transmits_congr (others t hne) x).2 ht, ?_⟩
      rw [lane, Lane.without, if_neg]
      rw [hsender]
      exact fun heq => hne (Option.some.inj heq)
  | @runs u task isPoll found live run others =>
      have hne : t ≠ u := fun heq => hpoll (heq ▸ isPoll)
      refine ⟨(transmits_congr (others t hne) x).2 ht, ?_⟩
      subst isPoll
      have hlive : ¬ c.Drops u (.poll u) := by
        rintro ⟨-, task', hget, hcancel⟩
        obtain rfl := Option.some.inj (found.symm.trans hget)
        exact absurd (live.symm.trans hcancel) (by simp)
      rcases lane_poll (fun y hu => hne (hc.inTurn.unique hu ht).1) hlive with hlane | ⟨y, henters, -⟩
      · exact hlane
      · exact absurd (henters.free.symm.trans hsender) (by simp)

/-- A step hands nothing over and has nothing accepted, or it is the poll of a task whose message is at the
    transport or takes the way out now. -/
theorem traffic_step {c : Connection} (hc : Reachable c) (action : Action) :
    ((c.step action).2.lane.turns = c.lane.turns ∨ ∃ t x, c.Enters action t x) ∧
      ((c.step action).2.lane.arrivals = c.lane.arrivals ∨
        ∃ t x, action = .poll t ∧ (c.Transmits t x ∨ c.Enters action t x) ∧
          (c.step action).2.lane.arrivals = x :: c.lane.arrivals) := by
  have hidle : (c.step action).2.lane = c.lane →
      (c.step action).2.lane.turns = c.lane.turns ∧ (c.step action).2.lane.arrivals = c.lane.arrivals :=
    fun hlane => ⟨congrArg Lane.turns hlane, congrArg Lane.arrivals hlane⟩
  cases laneStep hc action with
  | idle lane outgoing => exact ⟨Or.inl (hidle lane).1, Or.inl (hidle lane).2⟩
  | @drops t drops lane gone others =>
      have hkept : (c.lane.without t).turns = c.lane.turns ∧
          (c.lane.without t).arrivals = c.lane.arrivals := by
        unfold Lane.without
        split <;> exact ⟨rfl, rfl⟩
      rw [lane]
      exact ⟨Or.inl hkept.1, Or.inl hkept.2⟩
  | @runs t task isPoll found live run others =>
      subst isPoll
      have hlive : ¬ c.Drops t (.poll t) := by
        rintro ⟨-, task', hget, hcancel⟩
        obtain rfl := Option.some.inj (found.symm.trans hget)
        exact absurd (live.symm.trans hcancel) (by simp)
      by_cases htransmits : ∃ x, c.Transmits t x
      · obtain ⟨x, ht⟩ := htransmits
        rcases transmits_poll ht hlive with ⟨-, hlane⟩ | ⟨-, hlane | hlane⟩
        · exact ⟨Or.inl (hidle hlane).1, Or.inl (hidle hlane).2⟩
        · rw [hlane]
          exact ⟨Or.inl rfl, Or.inl rfl⟩
        · rw [hlane]
          exact ⟨Or.inl rfl, Or.inr ⟨t, x, rfl, Or.inl ht, rfl⟩⟩
      · rcases lane_poll (not_exists.1 htransmits) hlive with hlane | ⟨x, henters, harrivals⟩
        · exact ⟨Or.inl (hidle hlane).1, Or.inl (hidle hlane).2⟩
        · exact ⟨Or.inr ⟨t, x, henters⟩, harrivals.imp_right fun h => ⟨t, x, rfl, Or.inr henters, h⟩⟩

/-! ## Messages that are never handed over -/

theorem count_turns_some (c : Connection) (call : CallId) :
    (c.lane.turns.map Prod.fst).count (some call) = (c.sends call).length := by
  unfold lane sends handedReturns
  induction c.history with
  | nil => rfl
  | cons e es ih =>
      match e with
      | .handedOver (some k) m =>
          by_cases hk : k = call <;> simp_all [Event.turn?, Event.handedReturn?]
      | .handedOver none m =>
          rw [List.filterMap_cons_none (a := .handedOver none m) (f := Event.handedReturn?) rfl]
          simpa [Event.turn?] using ih
      | .accepted .. | .reserved _ | .shutDown _ | .reported _ | .created _ | .releasedOnFinish _
      | .releasedAfterReturn _ | .disconnecting _ | .pipelined .. | .nested _ => exact ih

theorem count_turns_none (c : Connection) :
    (c.lane.turns.map Prod.fst).count none = c.aborts.length := by
  unfold lane aborts
  induction c.history with
  | nil => rfl
  | cons e es ih =>
      match e with
      | .handedOver (some k) m =>
          rw [List.filterMap_cons_none (a := .handedOver (some k) m) (f := Event.abort?) rfl]
          simpa [Event.turn?] using ih
      | .handedOver none m => simp_all [Event.turn?, Event.abort?]
      | .accepted .. | .reserved _ | .shutDown _ | .reported _ | .created _ | .releasedOnFinish _
      | .releasedAfterReturn _ | .disconnecting _ | .pipelined .. | .nested _ => exact ih

/-- Every message takes the way out once at most. -/
theorem Reachable.nodup_turns {c : Connection} (hc : Reachable c) :
    (c.lane.turns.map Prod.fst).Nodup := by
  refine List.nodup_iff_count_le_one.2 fun who => ?_
  cases who with
  | none =>
      rw [count_turns_none]
      exact hc.endsInOrder.aborts
  | some call =>
      rw [count_turns_some]
      exact hc.length_sends_le call

/-- A return that is dropped with its task while it waits may not go out any more. -/
theorem not_unsent_of_drops {c : Connection} (hc : Reachable c) {action : Action} {t : TaskId}
    {h : Handle} {e : Envelope} (hq : c.QueuedAt t h e) (hdrops : c.Drops t action) :
    ¬ (c.step action).2.Unsent h.call := by
  obtain ⟨f, guard, hget⟩ := hq
  have hclosed : (c.step action).2.Closed h.call :=
    step_of_drops hget hdrops ▸ closed_of_dropTask hc hget rfl
  rintro (hnew | hreturn | ⟨u, k, d, hq', hcall⟩)
  · exact Nat.not_lt_of_le hnew hclosed.1
  · exact hclosed.not_hasReturn (.step action hc) hreturn
  · obtain ⟨f', guard', hget'⟩ := hq'
    have hold : c.books.Holds (.task t) h (.sending f) := taskOwes_of_get? (b := c.books) hget
    have hgone := (c.tasks_dropTask hget)
    rw [step_of_drops hget hdrops, hgone, Table.get?_erase] at hget'
    split at hget'
    · exact absurd hget' (by simp)
    · next hne =>
        have hold' : c.books.Holds (.task u) k (.sending f') := taskOwes_of_get? (b := c.books) hget'
        exact hne (Holder.task.inj (hc.holds_unique hold hold' hcall).1)

/-- Once nobody looks after the end of a broken connection, no abort is handed over any more. -/
theorem aborts_after_of_unattended {c : Connection} (hdown : c.isDown = true)
    (hnone : ∀ t task, c.tasks.get? t = some task → task.work.isEnding = false)
    (actions : List Action) : (c.after actions).aborts = c.aborts := by
  induction actions generalizing c with
  | nil => rfl
  | cons action rest ih =>
      cases c.parts action with
      | aloof farewells link tasks =>
          refine (ih ?_ fun t task hget => ?_).trans (aborts_of_farewells farewells)
          · rw [isDown_of_link link]
            exact hdown
          · cases hending : task.work.isEnding with
            | false => rfl
            | true => exact absurd ((hnone t task (tasks t task hget hending)).symm.trans hending) (by simp)
      | @ends t task e stage left isPoll poll =>
          exfalso
          cases hbegun : stage.hasBegun with
          | false =>
              have hup := poll.first (DisconnectStage.eq_unbegun hbegun)
              exact absurd (hup.symm.trans hdown) (by simp)
          | true =>
              have hending := (task.work.isEnding_iff).2 ⟨e, stage, ending_of_endsBy poll.goes hbegun, hbegun⟩
              exact absurd ((hnone t task poll.found).symm.trans hending) (by simp)

/-- A message that is dropped with its task while it waits is never handed over. -/
theorem not_mem_turns_of_dropped {c : Connection} (hc : Reachable c) {action : Action} {t : TaskId}
    {who : Option CallId} {e : Envelope} (hwait : c.StandsBy t who e) (hdrops : c.Drops t action)
    (more : List Action) : who ∉ (c.after (action :: more)).lane.turns.map Prod.fst := by
  obtain ⟨⟨work, guard⟩, hget, hwork⟩ := Option.bind_eq_some_iff.1 hwait
  have htasks := (congrArg Connection.tasks (step_of_drops hget hdrops)).trans (c.tasks_dropTask hget)
  have hnothing : (c.step action).2.lane.turns = c.lane.turns := by
    rw [(lane_step_of_drops hget hdrops).1, Lane.without]
    split <;> rfl
  rw [← List.count_eq_zero]
  rcases Work.outgoing?_cases hwork with ⟨h, f, rfl, rfl⟩ | ⟨x, hending, rfl⟩
  · have hq : c.QueuedAt t h e := ⟨f, guard, hget⟩
    have hbefore : c.sends h.call = [] := hc.sends_of_unsent (Or.inr (Or.inr ⟨t, h, e, hq, rfl⟩))
    have hover := not_unsent_of_drops hc hq hdrops
    rw [count_turns_some, after_cons, sends_after (.step action hc) hover, ← count_turns_some, hnothing,
      count_turns_some, hbefore]
    rfl
  · have hbegun : (DisconnectStage.aborting (.waiting e)).hasBegun = true := rfl
    obtain ⟨hlink, -, hcount⟩ := hc.endsInOrder.course t _ x _ hget hending hbegun
    have hdown : c.isDown = true := by simp [isDown, hlink]
    have hunattended : ∀ u other, (c.step action).2.tasks.get? u = some other →
        other.work.isEnding = false := by
      intro u other hother
      rw [htasks, Table.get?_erase] at hother
      split at hother
      · exact absurd hother (by simp)
      · next hne =>
          cases hends : other.work.isEnding with
          | false => rfl
          | true =>
              refine absurd (hc.endsInOrder.unique t u _ other hget hother ?_ hends) hne
              exact (Work.isEnding_iff _).2 ⟨x, _, hending, hbegun⟩
    have hlater : (c.step action).2.isDown = true := isDown_after hc hdown [action]
    rw [count_turns_none, after_cons, aborts_after_of_unattended hlater hunattended, ← count_turns_none,
      hnothing, count_turns_none]
    simpa [DisconnectStage.abortsLeft] using hcount

/-! ## All connections -/

/-- The messages of a connection go out one at a time. -/
structure TakesTurns (c : Connection) : Prop where
  /-- The way out is taken exactly by the task whose message is at the transport. -/
  holder : ∀ t, c.sender = some t ↔ ∃ x, c.Transmits t x
  /-- There is one such message at most. -/
  one : ∀ t u x y, c.Transmits t x → c.Transmits u y → u = t ∧ y = x
  /-- A message is handed over only by the poll of its task, while the way is free; then it is at the
      transport, unless its transmission is over at once. -/
  enters : ∀ action, (c.step action).2.lane.turns = c.lane.turns ∨ ∃ t x, c.Enters action t x
  /-- A message that waits is handed over by the first poll that finds the way free. -/
  waits : ∀ t who e, c.StandsBy t who e → ¬ c.Drops t (.poll t) →
    if c.sender = none then c.Enters (.poll t) t (who, e.root)
    else (c.step (.poll t)).2.StandsBy t who e ∧ (c.step (.poll t)).2.lane = c.lane
  /-- A message at the transport stays there, and nothing else is handed over or accepted, until its task
      is polled or dropped. -/
  keeps : ∀ t x action, c.Transmits t x → action ≠ .poll t → ¬ c.Drops t action →
    (c.step action).2.Transmits t x ∧ (c.step action).2.lane = c.lane
  /-- When its task is polled it is held up further, or its transmission ends, with or without success, and
      the way is free. -/
  leaves : ∀ t x, c.Transmits t x → ¬ c.Drops t (.poll t) →
    (c.step (.poll t)).2.Transmits t x ∧ (c.step (.poll t)).2.lane = c.lane ∨
      (c.step (.poll t)).2.outgoing t = none ∧ ((c.step (.poll t)).2.lane = c.lane.leave ∨
        (c.step (.poll t)).2.lane = { c.lane.leave with arrivals := x :: c.lane.arrivals })
  /-- What the transport accepts is what has the way out. -/
  accepts : ∀ action, (c.step action).2.lane.arrivals = c.lane.arrivals ∨
    ∃ t x, action = .poll t ∧ (c.Transmits t x ∨ c.Enters action t x) ∧
      (c.step action).2.lane.arrivals = x :: c.lane.arrivals
  /-- Messages are accepted in the order in which they took the way out. -/
  order : c.lane.arrivals.Sublist c.lane.turns
  /-- No message takes it twice. -/
  once : (c.lane.turns.map Prod.fst).Nodup
  /-- If the task that has the way is dropped, the way is free. -/
  frees : ∀ t x action, c.Transmits t x → c.Drops t action →
    (c.step action).2.lane = c.lane.leave ∧ (c.step action).2.outgoing t = none
  /-- If a task that waits is dropped, whoever has the way keeps it, and the message of the task is never
      handed over. -/
  abandons : ∀ t who e action, c.StandsBy t who e → c.Drops t action →
    (c.step action).2.lane = c.lane ∧ (c.step action).2.outgoing t = none ∧
      ∀ more, who ∉ (c.after (action :: more)).lane.turns.map Prod.fst

/-- On every connection that can come about, messages go out one at a time, in order. -/
theorem Reachable.takesTurns {c : Connection} (hc : Reachable c) : c.TakesTurns where
  holder := hc.inTurn.holder
  one _ _ _ _ ht hu := hc.inTurn.unique ht hu
  enters action := (traffic_step hc action).1
  waits _ _ _ hwait hlive := standsBy_poll hwait hlive
  keeps _ _ _ ht hpoll hdrop := transmits_step hc ht hpoll hdrop
  leaves _ _ ht hlive := transmits_poll ht hlive
  accepts action := (traffic_step hc action).2
  order := hc.inTurn.order
  once := hc.nodup_turns
  frees t x action ht hdrops := by
    have hsender := (hc.inTurn.holder t).2 ⟨x, ht⟩
    obtain ⟨e, gate, hout, -⟩ := ht
    obtain ⟨task, hget, -⟩ := Option.bind_eq_some_iff.1 hout
    obtain ⟨hlane, hgone, -⟩ := lane_step_of_drops hget hdrops
    rw [hlane, Lane.without, if_pos hsender]
    exact ⟨rfl, hgone⟩
  abandons t who e action hwait hdrops := by
    obtain ⟨task, hget, -⟩ := Option.bind_eq_some_iff.1 hwait
    obtain ⟨hlane, hgone, -⟩ := lane_step_of_drops hget hdrops
    refine ⟨?_, hgone, not_mem_turns_of_dropped hc hwait hdrops⟩
    rw [hlane, Lane.without, if_neg]
    intro hsender
    obtain ⟨x, ht⟩ := (hc.inTurn.holder t).1 hsender
    exact hwait.not_transmits x ht

/-- A run in which one return is held up at a gate while another one and an abort wait behind it. -/
def contendingRun : List Action :=
  [.newAnswer 1 "first", .newAnswer 2 "second", .gateSend, .sendReturn ⟨1, 0⟩ (.ok ()) none,
    .sendReturn ⟨2, 1⟩ (.ok ()) none, .disconnect (.external .failed "bye"), .poll 0, .poll 1, .poll 2]

theorem takesTurns_after_contending :
    ((initial {}).after contendingRun).sender = some 0 ∧
      (((initial {}).after contendingRun).after [.dropTask 1]).sender = some 0 ∧
      (((initial {}).after contendingRun).after [.dropTask 0]).sender = none ∧
      (((initial {}).after contendingRun).after [.dropTask 0, .poll 2, .poll 1]).lane.turns.map Prod.fst =
        [some 1, none, some 0] ∧
      (((initial {}).after contendingRun).after [.dropTask 0, .poll 2, .poll 1]).lane.arrivals.map Prod.fst =
        [some 1, none] ∧
      ((initial {}).after contendingRun).TakesTurns :=
  ⟨by decide +kernel, by decide +kernel, by decide +kernel, by decide +kernel, by decide +kernel,
    ((Reachable.initial {}).after contendingRun).takesTurns⟩

end Connection

end Callee
