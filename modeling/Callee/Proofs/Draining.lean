import Callee.Proofs.Pipelining

set_option autoImplicit false

/-! # Waiting for deliveries

A call that has completed waits until every delivery on its account is acknowledged. What it looks at is a
counter, and the counter is right: it says how many deliveries the receivers have yet to acknowledge
(`Reachable.tallied`). A place in the queue of those who wait is kept until the counter is zero
(`Reachable.placeKept`), and since an answer that has completed is shut to pipelined calls, the counter
cannot rise again before the one who waits has looked.

`drains_after` puts this together: the completion of a call is over exactly when its return is out and
nothing is left to acknowledge, and from then on nothing will be. -/

namespace Callee

namespace Deliveries

/-- Deliveries to which none is added: a place in the queue is kept until all are acknowledged. -/
def DrainsTo (d d' : Deliveries) : Prop :=
  (d.inFlight = 0 → d'.inFlight = 0) ∧ ∀ p ∈ d.waiting, p ∈ d'.waiting ∨ d'.inFlight = 0

theorem DrainsTo.refl (d : Deliveries) : d.DrainsTo d :=
  ⟨fun hnone => hnone, fun _ hp => Or.inl hp⟩

theorem DrainsTo.trans {d d' d'' : Deliveries} (h : d.DrainsTo d') (h' : d'.DrainsTo d'') :
    d.DrainsTo d'' := by
  refine ⟨fun hnone => h'.1 (h.1 hnone), fun p hp => ?_⟩
  rcases h.2 p hp with hp | hnone
  · exact h'.2 p hp
  · exact Or.inr (h'.1 hnone)

theorem drainsTo_acknowledge (d : Deliveries) : d.DrainsTo d.acknowledge := by
  refine ⟨fun hnone => by simp [hnone], fun p hp => ?_⟩
  by_cases hlast : d.inFlight - 1 = 0
  · exact Or.inr hlast
  · refine Or.inl ?_
    simp only [acknowledge, hlast, if_false]
    exact hp

theorem drainsTo_poll (d : Deliveries) (w : Wait) : d.DrainsTo (d.poll w).2 := by
  refine ⟨fun hnone => (d.inFlight_poll w).trans hnone, fun p hp => Or.inl ?_⟩
  cases w with
  | unasked =>
      simp only [poll]
      split
      · exact hp
      · exact List.mem_append_left _ hp
  | queued place =>
      simp only [poll]
      split <;> exact hp

/-- One who has to wait has a place in the queue. -/
theorem place_of_poll {d : Deliveries} {w w' : Wait} (h : (d.poll w).1 = some w') :
    ∃ p, w' = .queued p ∧ p ∈ (d.poll w).2.waiting := by
  cases w with
  | unasked =>
      simp only [poll] at h ⊢
      split at h
      · exact absurd h (by simp)
      · next hsome =>
          rw [if_neg hsome]
          exact ⟨d.nextTicket, (Option.some.inj h).symm, by simp⟩
  | queued place =>
      simp only [poll] at h ⊢
      split at h
      · next hin =>
          rw [if_pos hin]
          exact ⟨place, (Option.some.inj h).symm, hin⟩
      · exact absurd h (by simp)

/-- A wait that did not begin, or whose place is kept, is over exactly when nothing is in flight. -/
theorem poll_eq_none_iff {d : Deliveries} (hcalm : d.Calm) {w : Wait}
    (hplace : ∀ p, w = .queued p → p ∈ d.waiting ∨ d.inFlight = 0) :
    (d.poll w).1 = none ↔ d.inFlight = 0 := by
  cases w with
  | unasked => exact d.poll_unasked_eq_none_iff
  | queued place =>
      rw [poll_queued_eq_none_iff]
      constructor
      · intro hgone
        exact (hplace place rfl).resolve_left hgone
      · intro hnone hin
        rw [hcalm hnone] at hin
        exact absurd hin List.not_mem_nil

end Deliveries

namespace Connection

open Books

/-! ## Acknowledgements -/

theorem inFlight_foldl_acknowledge (c : Connection) (owners : List CallId) (k : CallId) :
    ((owners.foldl acknowledge c).deliveriesOf k).inFlight =
      (c.deliveriesOf k).inFlight - owners.count k := by
  induction owners generalizing c with
  | nil => rfl
  | cons owner rest ih =>
      rw [List.foldl_cons, ih, deliveriesOf_acknowledge, List.count_cons]
      by_cases hk : k = owner
      · subst hk
        simp only [if_true, beq_self_eq_true, Deliveries.inFlight_acknowledge]
        omega
      · have hne : ¬ (owner == k) = true := by simpa using fun he : owner = k => hk he.symm
        rw [if_neg hk, if_neg hne, Nat.add_zero]

theorem drainsTo_foldl_acknowledge (c : Connection) (owners : List CallId) (k : CallId) :
    (c.deliveriesOf k).DrainsTo ((owners.foldl acknowledge c).deliveriesOf k) := by
  induction owners generalizing c with
  | nil => exact .refl _
  | cons owner rest ih =>
      have hfirst : (c.deliveriesOf k).DrainsTo ((c.acknowledge owner).deliveriesOf k) := by
        rw [deliveriesOf_acknowledge]
        split
        · next hk => exact hk ▸ Deliveries.drainsTo_acknowledge _
        · exact .refl _
      exact hfirst.trans (ih (c.acknowledge owner))

theorem calm_foldl_acknowledge {c : Connection} (owners : List CallId)
    (hcalm : ∀ k, (c.deliveriesOf k).Calm) (k : CallId) :
    ((owners.foldl acknowledge c).deliveriesOf k).Calm := by
  induction owners generalizing c with
  | nil => exact hcalm k
  | cons owner rest ih =>
      refine ih fun j => ?_
      rw [deliveriesOf_acknowledge]
      split
      · exact Deliveries.calm_acknowledge _
      · exact hcalm j

theorem inFlight_acknowledgeHeld (c : Connection) (name : CallerName) (owners : List CallId)
    (k : CallId) : ((c.acknowledgeHeld name owners).deliveriesOf k).inFlight =
      (c.deliveriesOf k).inFlight - owners.count k :=
  inFlight_foldl_acknowledge _ owners k

theorem drainsTo_acknowledgeHeld (c : Connection) (name : CallerName) (owners : List CallId)
    (k : CallId) : (c.deliveriesOf k).DrainsTo ((c.acknowledgeHeld name owners).deliveriesOf k) :=
  drainsTo_foldl_acknowledge
    { c with callers := c.callers.modify name fun r => { r with held := r.held.drop owners.length } }
    owners k

theorem calm_acknowledgeHeld {c : Connection} (name : CallerName) (owners : List CallId)
    (hcalm : ∀ k, (c.deliveriesOf k).Calm) (k : CallId) :
    ((c.acknowledgeHeld name owners).deliveriesOf k).Calm := by
  have hsame : ∀ j, (({ c with callers := c.callers.modify name fun r => { r with
      held := r.held.drop owners.length } }).deliveriesOf j).Calm := hcalm
  exact calm_foldl_acknowledge owners hsame k

/-- What a receiver acknowledges it holds no longer. -/
theorem unacknowledged_acknowledgeHeld {c : Connection} {name : CallerName} {caller : Caller}
    (h : c.callers.get? name = some caller) {owners : List CallId} (howners : owners <+: caller.held)
    (k : CallId) :
    (c.acknowledgeHeld name owners).unacknowledged k + owners.count k = c.unacknowledged k := by
  let put : Caller → Caller := fun r => { r with held := r.held.drop owners.length }
  obtain ⟨ds, heq⟩ := foldl_acknowledge_shape { c with callers := c.callers.modify name put } owners
  have hcallers : (c.acknowledgeHeld name owners).callers = c.callers.modify name put :=
    congrArg Connection.callers heq
  have htotal := c.callers.total_modify (fun r => r.held.count k) h put
  have hparts : owners ++ caller.held.drop owners.length = caller.held :=
    List.prefix_iff_eq_append.1 howners
  have hcount : caller.held.count k = owners.count k + (put caller).held.count k := by
    rw [← List.count_append]
    exact congrArg (List.count k) hparts.symm
  unfold unacknowledged
  rw [hcallers]
  omega

/-! ## What work does to the deliveries -/

theorem unacknowledged_of_receivers {c c' : Connection} (h : c'.receivers = c.receivers) (k : CallId) :
    c'.unacknowledged k = c.unacknowledged k := by
  have hcallers : c'.callers = c.callers := congrArg Prod.fst h
  unfold unacknowledged
  rw [hcallers]

theorem deliveriesOf_of_receivers {c c' : Connection} (h : c'.receivers = c.receivers) (k : CallId) :
    c'.deliveriesOf k = c.deliveriesOf k := by
  have hdeliveries : c'.deliveries = c.deliveries := congrArg Prod.snd h
  unfold deliveriesOf
  rw [hdeliveries]

/-- What looking after the completion of a call comes to. -/
inductive Looks (c : Connection) (t : TaskId) (h : Handle) (stage : ReturnStage) : Prop
  /-- The return is on its way out. -/
  | sending {send : SendStage} {f : Bool} (left : (c.pollReturn t h stage).1 = some (.sending send f))
      (receivers : (c.pollReturn t h stage).2.receivers = c.receivers)
  /-- It is out, or there is none: what is left are the deliveries. -/
  | settled {d : Connection} {w : Wait} (receivers : d.receivers = c.receivers)
      (wait : w = .unasked ∨ stage = .draining w) (poll : c.pollReturn t h stage = d.awaitDeliveries h w)
  /-- There is no answer. -/
  | missing {result : Except Error Unit} (unbegun : stage = .unbegun result)
      (gone : c.answers.get? h.id = none) (ended : (c.pollReturn t h stage).1 = none)
      (receivers : (c.pollReturn t h stage).2.receivers = c.receivers)

theorem looks (c : Connection) (t : TaskId) (h : Handle) (stage : ReturnStage) :
    c.Looks t h stage := by
  have hend : ∀ d : Connection, (d.endReturn h.id).receivers = d.receivers := fun d =>
    receivers_of_dealings (d.dealings_endReturn h.id)
  have hsend : ∀ (d : Connection) (send : SendStage) (f : Bool), d.receivers = c.receivers →
      c.pollReturn t h stage = d.awaitReturn t h send f → c.Looks t h stage := by
    intro d send f hd heq
    have hpoll := d.receivers_pollSend t (some h.call) send
    unfold awaitReturn at heq
    split at heq
    · next hp =>
        rw [hp] at hpoll
        exact .sending (congrArg Prod.fst heq) ((congrArg (receivers ∘ Prod.snd) heq).trans (hpoll.trans hd))
    · next e d' hp =>
        rw [hp] at hpoll
        have hreport : (d'.report (.sendingReturn e)).receivers = d'.receivers := rfl
        exact .settled ((hend _).trans (hreport.trans (hpoll.trans hd))) (Or.inl rfl) heq
    · next hp =>
        rw [hp] at hpoll
        exact .settled ((hend _).trans (hpoll.trans hd)) (Or.inl rfl) heq
  cases stage with
  | draining w => exact .settled rfl (Or.inr rfl) rfl
  | sending send f => exact hsend c send f rfl rfl
  | unbegun result =>
      have hbegin := receivers_of_dealings (c.dealings_beginReturn h.id result)
      cases ha : c.answers.get? h.id with
      | none =>
          have hpoll : c.pollReturn t h (.unbegun result) = (none, c.report (.returnWithoutAnswer h.id)) := by
            simp only [pollReturn, c.beginReturn_of_none result ha]
          exact .missing rfl ha (congrArg Prod.fst hpoll) (congrArg (receivers ∘ Prod.snd) hpoll)
      | some a =>
          obtain ⟨begun, ms, x, hs, p, a', heq, -⟩ := c.beginReturn_shape result ha
          obtain ⟨envelope, f⟩ := begun
          rw [heq] at hbegin
          cases envelope with
          | some e =>
              refine hsend _ (.waiting e) f hbegin ?_
              simp only [pollReturn, heq]
          | none =>
              refine .settled ((hend _).trans hbegin) (Or.inl rfl) ?_
              simp only [pollReturn, heq]
              rfl

/-- A piece of work asks after the deliveries of one call at most. -/
theorem deliveriesOf_run (c : Connection) (t : TaskId) (work : Work) (k : CallId) :
    (c.run t work).2.callers = c.callers ∧
      ((c.run t work).2.deliveriesOf k = c.deliveriesOf k ∨
        ∃ w, (c.run t work).2.deliveriesOf k = ((c.deliveriesOf k).poll w).2) := by
  have hsame : (c.run t work).2.receivers = c.receivers →
      (c.run t work).2.callers = c.callers ∧
        ((c.run t work).2.deliveriesOf k = c.deliveriesOf k ∨
          ∃ w, (c.run t work).2.deliveriesOf k = ((c.deliveriesOf k).poll w).2) := fun h =>
    ⟨congrArg Prod.fst h, Or.inl (deliveriesOf_of_receivers h k)⟩
  cases work with
  | accept stage =>
      have hpoll := c.receivers_pollAccept t stage
      refine hsame ?_
      simp only [run]
      split <;> next heq => rw [heq] at hpoll; exact hpoll
  | disconnect e stage =>
      have hpoll := c.receivers_pollDisconnect t e stage
      refine hsame ?_
      simp only [run]
      split <;> next heq => rw [heq] at hpoll; exact hpoll
  | sendReturn h stage =>
      rw [run_sendReturn] at hsame ⊢
      cases c.looks t h stage with
      | sending left receivers => exact hsame receivers
      | missing unbegun gone ended receivers => exact hsame receivers
      | @settled d w receivers wait poll =>
          rw [poll]
          refine ⟨congrArg Prod.fst receivers, ?_⟩
          have hput : (d.awaitDeliveries h w).2.deliveriesOf k =
              if k = h.call then ((d.deliveriesOf h.call).poll w).2 else d.deliveriesOf k :=
            d.deliveriesOf_putDeliveries h.call _ k
          rw [hput, deliveriesOf_of_receivers receivers, deliveriesOf_of_receivers receivers]
          split
          · next hk => exact Or.inr ⟨w, by rw [hk]⟩
          · exact Or.inl rfl

/-! ## Counting deliveries -/

/-- The counters say how many deliveries receivers have yet to acknowledge. -/
structure Tallied (c : Connection) : Prop where
  inFlight : ∀ k, (c.deliveriesOf k).inFlight = c.unacknowledged k
  calm : ∀ k, (c.deliveriesOf k).Calm

/-- What a step does to the deliveries of a call. -/
structure Tallies (c : Connection) (action : Action) (k : CallId) : Prop where
  /-- What was made is acknowledged, or a receiver has yet to do so. -/
  balance : (c.step action).2.unacknowledged k + (c.acknowledges action).count k =
    c.unacknowledged k + ((c.delivers action).map Delivery.owner).count k
  inFlight : (c.deliveriesOf k).inFlight = c.unacknowledged k →
    ((c.step action).2.deliveriesOf k).inFlight = (c.step action).2.unacknowledged k
  calm : (∀ j, (c.deliveriesOf j).Calm) → ((c.step action).2.deliveriesOf k).Calm
  drains : k ∉ (c.delivers action).map Delivery.owner →
    (c.deliveriesOf k).DrainsTo ((c.step action).2.deliveriesOf k)

/-- A step that makes no delivery and has none acknowledged leaves the deliveries as they are, or asks
    after them. -/
theorem tallies_of_idle {c : Connection} {action : Action} {k : CallId}
    (hdelivers : c.delivers action = []) (hacknowledges : c.acknowledges action = [])
    (hcallers : (c.step action).2.unacknowledged k = c.unacknowledged k)
    (hdeliveries : (c.step action).2.deliveriesOf k = c.deliveriesOf k ∨
      ∃ w, (c.step action).2.deliveriesOf k = ((c.deliveriesOf k).poll w).2) : c.Tallies action k where
  balance := by
    rw [hdelivers, hacknowledges, hcallers]
    rfl
  inFlight hmatch := by
    rw [hcallers, ← hmatch]
    rcases hdeliveries with heq | ⟨w, heq⟩
    · rw [heq]
    · rw [heq, Deliveries.inFlight_poll]
  calm hcalm := by
    rcases hdeliveries with heq | ⟨w, heq⟩
    · rw [heq]
      exact hcalm k
    · rw [heq]
      exact (hcalm k).poll w
  drains _ := by
    rcases hdeliveries with heq | ⟨w, heq⟩
    · rw [heq]
      exact .refl _
    · rw [heq]
      exact Deliveries.drainsTo_poll _ w

theorem tallies_forward (c : Connection) (id : AnswerId) (call : PipelinedCall) (k : CallId) :
    c.Tallies (.forward id call) k := by
  have hstep : (c.step (.forward id call)).2 = (c.forward id call).2 := by
    simp only [step]
    split <;> next heq => rw [heq]
  have heffect := c.forward_handsOn id call
  have hcount := c.count_kept_add_count_unkept (c.deliveriesOn id call) k
  constructor
  case balance =>
    rw [hstep, heffect.unacknowledged k]
    simp only [delivers, acknowledges]
    omega
  case inFlight =>
    intro hmatch
    rw [hstep, heffect.inFlight k, heffect.unacknowledged k, hmatch]
  case calm =>
    intro hcalm
    rw [hstep]
    exact heffect.calm hcalm k
  case drains =>
    intro hk
    rw [hstep, heffect.others k hk]
    exact .refl _

theorem tallies_acknowledge {c : Connection} {name : CallerName} {caller : Caller}
    (found : c.callers.get? name = some caller) (count : Option Nat) (k : CallId) :
    c.Tallies (.acknowledge name count) k := by
  have howners : c.acknowledges (.acknowledge name count) =
      caller.held.take (count.getD caller.held.length) := by simp [acknowledges, found]
  have hstep : (c.step (.acknowledge name count)).2 =
      c.acknowledgeHeld name (c.acknowledges (.acknowledge name count)) := by
    rw [howners]
    cases count <;> simp [step, found]
  have hheld := unacknowledged_acknowledgeHeld found (howners ▸ List.take_prefix _ caller.held) k
  constructor
  case balance =>
    rw [hstep]
    exact hheld
  case inFlight =>
    intro hmatch
    rw [hstep, inFlight_acknowledgeHeld, hmatch]
    omega
  case calm =>
    intro hcalm
    rw [hstep]
    exact calm_acknowledgeHeld name _ hcalm k
  case drains =>
    intro _
    rw [hstep]
    exact c.drainsTo_acknowledgeHeld name _ k

theorem tallies_of_dealings {c : Connection} {action : Action} (hdelivers : c.delivers action = [])
    (hacknowledges : c.acknowledges action = []) (h : (c.step action).2.dealings = c.dealings)
    (k : CallId) : c.Tallies action k :=
  tallies_of_idle hdelivers hacknowledges (unacknowledged_of_receivers (receivers_of_dealings h) k)
    (Or.inl (deliveriesOf_of_receivers (receivers_of_dealings h) k))

theorem tallies (c : Connection) (action : Action) (k : CallId) : c.Tallies action k := by
  have hdeals := c.deals action
  cases action with
  | forward id call => exact c.tallies_forward id call k
  | acknowledge name count =>
      cases found : c.callers.get? name with
      | some caller => exact tallies_acknowledge found count k
      | none =>
          have hnone : c.acknowledges (.acknowledge name count) = [] := by simp [acknowledges, found]
          have hstep : (c.step (.acknowledge name count)).2 = c := by simp [step, found]
          exact tallies_of_dealings rfl hnone (congrArg dealings hstep) k
  | newCaller name mode =>
      cases hdeals with
      | nothing dealings => exact tallies_of_dealings rfl rfl dealings k
      | newCaller fresh step =>
          have htotal := c.callers.total_insert (fun r => r.held.count k) name { mode := mode }
          rw [fresh] at htotal
          have hcallers : (c.step (.newCaller name mode)).2.unacknowledged k = c.unacknowledged k := by
            rw [step]
            exact htotal
          exact tallies_of_idle rfl rfl hcallers (Or.inl (by rw [step]; rfl))
  | poll t =>
      cases hdeals with
      | nothing dealings => exact tallies_of_dealings rfl rfl dealings k
      | @poll _ task found live dealings =>
          obtain ⟨hcallers, hdeliveries⟩ := c.deliveriesOf_run t task.work k
          have hsame := receivers_of_dealings dealings
          rw [← deliveriesOf_of_receivers hsame] at hdeliveries
          have hheld : (c.run t task.work).2.unacknowledged k = c.unacknowledged k := by
            unfold unacknowledged
            rw [hcallers]
          exact tallies_of_idle rfl rfl ((unacknowledged_of_receivers hsame k).trans hheld) hdeliveries
  | _ =>
      cases hdeals with
      | nothing dealings => exact tallies_of_dealings rfl rfl dealings k

theorem Reachable.tallied {c : Connection} (hc : Reachable c) : c.Tallied := by
  induction hc with
  | initial options => exact ⟨fun _ => rfl, fun _ _ => rfl⟩
  | @step c action _ ih =>
      exact ⟨fun k => (c.tallies action k).inFlight (ih.inFlight k),
        fun k => (c.tallies action k).calm ih.calm⟩

/-- Over a run, what was made is acknowledged, or a receiver has yet to do so. -/
theorem unacknowledged_after (c : Connection) (actions : List Action) (k : CallId) :
    (c.after actions).unacknowledged k + (along acknowledges c actions).count k =
      c.unacknowledged k + ((along delivers c actions).map Delivery.owner).count k := by
  induction actions generalizing c with
  | nil => rfl
  | cons action rest ih =>
      have hstep := (c.tallies action k).balance
      have hrest := ih (c.step action).2
      simp only [along, after_cons, List.map_append, List.count_append]
      omega

/-! ## Places in the queue -/

theorem Reachable.closed_of_draining {c : Connection} (hc : Reachable c) {t : TaskId} {h : Handle}
    {w : Wait} {guard : Option Token}
    (hget : c.tasks.get? t = some ⟨.sendReturn h (.draining w), guard⟩) : c.Closed h.call := by
  induction hc generalizing w with
  | initial options => exact absurd hget (by simp [Connection.initial])
  | @step c action hprev ih =>
      cases c.taskStep action hget with
      | kept before idle => exact (ih before).after hprev [action]
      | spawned number fresh => exact fresh.elim
      | @ran before work isPoll found live left task =>
          obtain ⟨work₀, guard₀⟩ := before
          obtain ⟨rfl, rfl⟩ := Task.mk.inj task
          obtain ⟨stage, rfl, -⟩ := left_of_run left
          cases stage with
          | draining w₀ => exact (ih found).after hprev [action]
          | unbegun result => exact isPoll ▸ closed_of_poll hprev found live rfl
          | sending send f => exact isPoll ▸ closed_of_poll hprev found live rfl

/-- Looking after the completion of a call leaves its answer closed. -/
theorem closed_of_polled {c : Connection} (hc : Reachable c) {t : TaskId} {h : Handle}
    {stage : ReturnStage} {guard : Option Token}
    (hget : c.tasks.get? t = some ⟨.sendReturn h stage, guard⟩)
    (hlive : guard.any c.isCanceled = false) : (c.step (.poll t)).2.Closed h.call := by
  cases stage with
  | draining w => exact (hc.closed_of_draining hget).after hc [.poll t]
  | unbegun result => exact closed_of_poll hc hget hlive rfl
  | sending send f => exact closed_of_poll hc hget hlive rfl

theorem receivers_poll {c : Connection} {t : TaskId} {task : Task} (hget : c.tasks.get? t = some task)
    (hlive : task.guard.any c.isCanceled = false) :
    (c.step (.poll t)).2.receivers = (c.run t task.work).2.receivers := by
  simp only [step, poll, hget, hlive, Bool.false_eq_true, if_false]
  split <;> next heq => rw [heq]; rfl

/-- Nothing is delivered on account of a call that is closed. -/
theorem Closed.not_mem_delivers {c : Connection} {call : CallId} (h : c.Closed call) (hc : Reachable c)
    (action : Action) : call ∉ (c.delivers action).map Delivery.owner := by
  intro hin
  obtain ⟨d, hd, howner⟩ := List.mem_map.1 hin
  cases action with
  | forward id p => exact h.not_owner hc hd howner
  | _ => exact absurd hd List.not_mem_nil

/-- A task that waits for deliveries has a place that is kept until there are none. -/
theorem Reachable.placeKept {c : Connection} (hc : Reachable c) {t : TaskId} {h : Handle} {w : Wait}
    {guard : Option Token} (hget : c.tasks.get? t = some ⟨.sendReturn h (.draining w), guard⟩) :
    ∃ p, w = .queued p ∧
      (p ∈ (c.deliveriesOf h.call).waiting ∨ (c.deliveriesOf h.call).inFlight = 0) := by
  induction hc with
  | initial options => exact absurd hget (by simp [Connection.initial])
  | @step c action hprev ih =>
      cases c.taskStep action hget with
      | kept before idle =>
          obtain ⟨p, rfl, hp⟩ := ih before
          -- the answer is closed, so that nothing is delivered on its account while the task waits
          have hclosed := hprev.closed_of_draining before
          have hdrains := (c.tallies action h.call).drains (hclosed.not_mem_delivers hprev action)
          refine ⟨p, rfl, ?_⟩
          rcases hp with hp | hzero
          · exact hdrains.2 p hp
          · exact Or.inr (hdrains.1 hzero)
      | spawned number fresh => exact fresh.elim
      | @ran before work isPoll found live left task =>
          obtain ⟨work₀, guard₀⟩ := before
          obtain ⟨rfl, rfl⟩ := Task.mk.inj task
          obtain ⟨stage, rfl, hpoll⟩ := left_of_run left
          subst isPoll
          have hreceivers := receivers_poll found live
          dsimp only at hreceivers
          rw [run_sendReturn] at hreceivers
          rw [deliveriesOf_of_receivers hreceivers]
          cases c.looks t h stage with
          | sending left receivers => exact absurd (left.symm.trans hpoll) (by simp)
          | missing unbegun gone ended receivers => exact absurd (ended.symm.trans hpoll) (by simp)
          | @settled d w₀ receivers wait poll =>
              rw [poll] at hpoll ⊢
              obtain ⟨w', hw', heq⟩ := Option.map_eq_some_iff.1 hpoll
              obtain rfl := ReturnStage.draining.inj heq
              obtain ⟨p, rfl, hp⟩ := Deliveries.place_of_poll hw'
              refine ⟨p, rfl, Or.inl ?_⟩
              have hput : (d.awaitDeliveries h w₀).2.deliveriesOf h.call =
                  ((d.deliveriesOf h.call).poll w₀).2 :=
                (d.deliveriesOf_putDeliveries h.call _ h.call).trans (if_pos rfl)
              rw [hput]
              exact hp

/-! ## When a completion is over -/

/-- A task has the return of a call on its way out. -/
def IsSending (c : Connection) (t : TaskId) : Prop :=
  ∃ h send f guard, c.tasks.get? t = some ⟨.sendReturn h (.sending send f), guard⟩

/-- How a poll of the completion of a call ends: there is something left of it, or not. -/
theorem polled_return {c : Connection} {t : TaskId} {h : Handle} {stage : ReturnStage}
    {guard : Option Token} (hget : c.tasks.get? t = some ⟨.sendReturn h stage, guard⟩)
    (hlive : guard.any c.isCanceled = false) :
    ((c.step (.poll t)).1 = .polled .finished ↔ (c.pollReturn t h stage).1 = none) ∧
      (c.step (.poll t)).2.tasks.get? t =
        (c.pollReturn t h stage).1.map fun left => ⟨.sendReturn h left, guard⟩ := by
  simp only [step, poll, hget, hlive, Bool.false_eq_true, if_false, run]
  rcases c.pollReturn t h stage with ⟨left, d⟩
  cases left with
  | none => simp
  | some left => simp

/-- The completion of a call is over exactly when its return is out and nothing is left to acknowledge. -/
theorem finished_iff {c : Connection} (hc : Reachable c) {t : TaskId} {h : Handle} {stage : ReturnStage}
    {guard : Option Token} (hget : c.tasks.get? t = some ⟨.sendReturn h stage, guard⟩)
    (hlive : guard.any c.isCanceled = false) : (c.step (.poll t)).1 = .polled .finished ↔
      ¬ (c.step (.poll t)).2.IsSending t ∧ (c.step (.poll t)).2.unacknowledged h.call = 0 := by
  obtain ⟨hreply, htask⟩ := polled_return hget hlive
  have hheld : (c.step (.poll t)).2.unacknowledged h.call = c.unacknowledged h.call := by
    have hbalance := (c.tallies (.poll t) h.call).balance
    exact hbalance
  rw [hreply, hheld]
  cases c.looks t h stage with
  | @sending send f left receivers =>
      refine iff_of_false (by rw [left]; simp) ?_
      rintro ⟨hnot, -⟩
      refine hnot ⟨h, send, f, guard, ?_⟩
      rw [htask, left]
      rfl
  | missing unbegun gone ended receivers =>
      -- the one who completes a call has a handle, and the handle an answer
      subst unbegun
      have hold : c.books.Holds (.task t) h .building := (taskOwes_of_get? hget).trans rfl
      obtain ⟨st, found, -⟩ := hc.custody.found hold
      obtain ⟨a, ha, -⟩ := (status_eq_some_iff _ _ _ _).1 found
      exact absurd (gone.symm.trans ha) (by simp)
  | @settled d w receivers wait poll =>
      have hleft : (c.pollReturn t h stage).1 = ((c.deliveriesOf h.call).poll w).1.map .draining := by
        rw [poll, ← deliveriesOf_of_receivers receivers]
        rfl
      have hplace : ∀ p, w = .queued p →
          p ∈ (c.deliveriesOf h.call).waiting ∨ (c.deliveriesOf h.call).inFlight = 0 := by
        rintro p rfl
        rcases wait with hw | rfl
        · exact absurd hw (by simp)
        · obtain ⟨p', hp', hkept⟩ := hc.placeKept hget
          exact Wait.queued.inj hp' ▸ hkept
      -- what is left of the task, if anything is, waits for deliveries
      have hidle : ¬ (c.step (.poll t)).2.IsSending t := by
        rintro ⟨h', send, f, guard', hsending⟩
        rw [htask, hleft, Option.map_map] at hsending
        obtain ⟨w', -, heq⟩ := Option.map_eq_some_iff.1 hsending
        exact absurd heq (by simp)
      rw [hleft, Option.map_eq_none_iff, Deliveries.poll_eq_none_iff (hc.tallied.calm _) hplace,
        hc.tallied.inFlight]
      exact ⟨fun hnone => ⟨hidle, hnone⟩, fun hboth => hboth.2⟩

/-- What is closed and has nothing left to acknowledge stays so. -/
theorem Closed.drained_after {c : Connection} {call : CallId} (h : c.Closed call) (hc : Reachable c)
    (hnone : c.unacknowledged call = 0) (more : List Action) :
    call ∉ (along delivers c more).map Delivery.owner ∧ (c.after more).unacknowledged call = 0 := by
  induction more generalizing c with
  | nil => exact ⟨List.not_mem_nil, hnone⟩
  | cons action rest ih =>
      have hnot := h.not_mem_delivers hc action
      have hbalance := (c.tallies action call).balance
      rw [List.count_eq_zero.2 hnot, hnone] at hbalance
      have hstep : (c.step action).2.unacknowledged call = 0 := by omega
      obtain ⟨hrest, hafter⟩ := ih (h.after hc [action]) (.step action hc) hstep
      refine ⟨?_, hafter⟩
      simp only [along, List.map_append, List.mem_append, not_or]
      exact ⟨hnot, hrest⟩

/-! ## All runs -/

/-- How a call waits for its deliveries over a run. -/
structure Drains (options : Options) (actions : List Action) : Prop where
  /-- Of the deliveries that were ever made for a call, each is acknowledged or some receiver has yet to
      acknowledge it, and the counter of the call says how many of the latter there are. -/
  ledger : ∀ call,
    ((along delivers (initial options) actions).map Delivery.owner).count call =
      (along acknowledges (initial options) actions).count call +
        ((initial options).after actions).unacknowledged call ∧
    (((initial options).after actions).deliveriesOf call).inFlight =
      ((initial options).after actions).unacknowledged call
  /-- When the completion of a call is over all of them are acknowledged, and there will be no other. -/
  finished : ∀ t h stage guard,
    ((initial options).after actions).tasks.get? t = some ⟨.sendReturn h stage, guard⟩ →
    (((initial options).after actions).step (.poll t)).1 = .polled .finished →
    ((along delivers (initial options) (actions ++ [.poll t])).map Delivery.owner).count h.call =
      (along acknowledges (initial options) (actions ++ [.poll t])).count h.call ∧
    ∀ more,
      h.call ∉ (along delivers (((initial options).after actions).step (.poll t)).2 more).map
        Delivery.owner ∧
      ((((initial options).after actions).step (.poll t)).2.after more).unacknowledged h.call = 0
  /-- A poll finds it over exactly if the return is not on its way and no receiver has yet to acknowledge
      a delivery. -/
  exact : ∀ t h stage guard,
    ((initial options).after actions).tasks.get? t = some ⟨.sendReturn h stage, guard⟩ →
    guard.any ((initial options).after actions).isCanceled = false →
    ((((initial options).after actions).step (.poll t)).1 = .polled .finished ↔
      ¬ (((initial options).after actions).step (.poll t)).2.IsSending t ∧
        (((initial options).after actions).step (.poll t)).2.unacknowledged h.call = 0)

/-- On every run the completion of a call lasts until its deliveries are acknowledged, and no longer. -/
theorem drains_after (options : Options) (actions : List Action) : Drains options actions := by
  have hc := (Reachable.initial options).after actions
  have hledger : ∀ actions' call,
      ((along delivers (initial options) actions').map Delivery.owner).count call =
        (along acknowledges (initial options) actions').count call +
          ((initial options).after actions').unacknowledged call := by
    intro actions' call
    have hbalance := unacknowledged_after (initial options) actions' call
    have hnone : (initial options).unacknowledged call = 0 := rfl
    omega
  constructor
  case ledger =>
    intro call
    exact ⟨hledger actions call, hc.tallied.inFlight call⟩
  case finished =>
    intro t h stage guard hget hfinished
    have hlive : guard.any ((initial options).after actions).isCanceled = false :=
      live_of_finished hget hfinished
    obtain ⟨-, hnone⟩ := (finished_iff hc hget hlive).1 hfinished
    have hpolled := hledger (actions ++ [.poll t]) h.call
    rw [after_append, after_cons, after_nil, hnone] at hpolled
    exact ⟨hpolled, (closed_of_polled hc hget hlive).drained_after (.step (.poll t) hc) hnone⟩
  case exact =>
    intro t h stage guard hget hlive
    exact finished_iff hc hget hlive

/-- A run in which a call completes while a receiver holds a delivery of it, and another call comes in under
    the same id and is pipelined to the same receiver. -/
def sharedIdRun : List Action :=
  [.newCaller "receiver" .hold, .newAnswer 1 "first", .setPipeline 1 "receiver", .forward 1 ⟨5, 7, 0, []⟩,
    .sendReturn ⟨1, 0⟩ (.ok ()) none, .poll 0, .finish 1 false, .newAnswer 1 "second",
    .setPipeline 1 "receiver", .forward 1 ⟨6, 7, 0, []⟩]

theorem drains_after_reuse :
    let c := (initial {}).after sharedIdRun
    (c.step (.poll 0)).1 = .polled .pending ∧
      ((c.after [.acknowledge "receiver" (some 1)]).step (.poll 0)).1 = .polled .finished ∧
      (c.after [.acknowledge "receiver" (some 1)]).unacknowledged 1 = 1 ∧
      Drains {} (sharedIdRun ++ [.acknowledge "receiver" (some 1)]) :=
  ⟨by decide +kernel, by decide +kernel, by decide +kernel,
    drains_after {} (sharedIdRun ++ [.acknowledge "receiver" (some 1)])⟩

end Connection

end Callee
