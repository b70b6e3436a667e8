import Callee.Proofs.Dealings
import Callee.Proofs.Tables

set_option autoImplicit false

/-! # Forwarding pipelined calls

A pipelined call that goes to a receiver is a delivery on account of the call whose answer it was
addressed to. What comes next is up to the receiver: it may keep the delivery and acknowledge it later, it
may acknowledge it at once, or it may send the call to another answer first, where the same begins anew.
`Goes` lists these ways, and `deliveriesOn` the deliveries that come of one call, in order.

`forward_handsOn` says what a forwarded call does, all in all: the receivers are handed these calls, and
a delivery counts for its call as long as the receiver has not acknowledged it. -/

namespace Callee

/-- A pipelined call that a receiver was handed, on account of the call `owner`. -/
structure Delivery where
  caller : CallerName
  owner : CallId
  call : PipelinedCall
  deriving DecidableEq

/-- The receiver and the pipelined call, if an event says that the one was handed the other. -/
def Event.handedCall? : Event → Option (CallerName × PipelinedCall)
  | .pipelined name call => some (name, call)
  | _ => none

/-- Nobody waits unless something is in flight. -/
def Deliveries.Calm (d : Deliveries) : Prop := d.inFlight = 0 → d.waiting = []

namespace Deliveries

theorem calm_add (d : Deliveries) : d.add.Calm := by
  intro hnone
  exact absurd hnone (Nat.succ_ne_zero _)

theorem calm_acknowledge (d : Deliveries) : d.acknowledge.Calm := by
  intro hnone
  have hlast : d.inFlight - 1 = 0 := hnone
  simp [acknowledge, hlast]

theorem Calm.poll {d : Deliveries} (h : d.Calm) (w : Wait) : (d.poll w).2.Calm := by
  cases w with
  | unasked =>
      simp only [Deliveries.poll]
      split
      · exact h
      · next hsome => exact fun hnone => absurd hnone hsome
  | queued place =>
      simp only [Deliveries.poll]
      split <;> exact h

end Deliveries

namespace Connection

/-! ## Receivers and deliveries -/

/-- The pipelined calls that receivers were handed, the first one in front. -/
def handedCalls (c : Connection) : List (CallerName × PipelinedCall) :=
  c.history.reverse.filterMap Event.handedCall?

/-- What a receiver does with a call. -/
def modeOf (c : Connection) (name : CallerName) : Option CallerMode :=
  (c.callers.get? name).map Caller.mode

/-- The number of deliveries of a call that receivers have yet to acknowledge. -/
def unacknowledged (c : Connection) (call : CallId) : Nat :=
  c.callers.total fun r => r.held.count call

@[simp] theorem handedCalls_deliver (c : Connection) (name : CallerName) (owner : CallId)
    (call : PipelinedCall) :
    (c.deliver name owner call).handedCalls = c.handedCalls ++ [(name, call)] := by
  simp [deliver, putDeliveries, emit, handedCalls, Event.handedCall?, List.filterMap_append]

@[simp] theorem handedCalls_acknowledge (c : Connection) (owner : CallId) :
    (c.acknowledge owner).handedCalls = c.handedCalls := rfl

@[simp] theorem handedCalls_holdDelivery (c : Connection) (name : CallerName) (owner : CallId) :
    (c.holdDelivery name owner).handedCalls = c.handedCalls := rfl

@[simp] theorem handedCalls_nested (c : Connection) (r : Except Error Forwarded) :
    (c.emit (.nested r)).handedCalls = c.handedCalls := by
  simp [emit, handedCalls, Event.handedCall?, List.filterMap_append]

theorem modeOf_modify (c : Connection) (name : CallerName) (f : Caller → Caller)
    (hmode : ∀ r, (f r).mode = r.mode) (other : CallerName) :
    ((c.callers.modify name f).get? other).map Caller.mode = c.modeOf other := by
  unfold modeOf
  rw [Table.get?_modify]
  split
  · next heq =>
      rw [heq, Option.map_map]
      exact congrArg (fun g => (c.callers.get? name).map g) (funext hmode)
  · rfl

@[simp] theorem modeOf_deliver (c : Connection) (name : CallerName) (owner : CallId)
    (call : PipelinedCall) (other : CallerName) :
    (c.deliver name owner call).modeOf other = c.modeOf other :=
  c.modeOf_modify name (fun r => { r with received := r.received + 1 }) (fun _ => rfl) other

@[simp] theorem modeOf_acknowledge (c : Connection) (owner : CallId) (other : CallerName) :
    (c.acknowledge owner).modeOf other = c.modeOf other := rfl

@[simp] theorem modeOf_holdDelivery (c : Connection) (name : CallerName) (owner : CallId)
    (other : CallerName) : (c.holdDelivery name owner).modeOf other = c.modeOf other :=
  c.modeOf_modify name (fun r => { r with held := r.held ++ [owner] }) (fun _ => rfl) other

theorem deliveriesOf_putDeliveries (c : Connection) (call : CallId) (d : Deliveries) (k : CallId) :
    (c.putDeliveries call d).deliveriesOf k = if k = call then d else c.deliveriesOf k := by
  unfold putDeliveries deliveriesOf
  rw [Table.get?_insert]
  split <;> rfl

theorem deliveriesOf_deliver (c : Connection) (name : CallerName) (owner : CallId)
    (call : PipelinedCall) (k : CallId) : (c.deliver name owner call).deliveriesOf k =
      if k = owner then (c.deliveriesOf owner).add else c.deliveriesOf k :=
  c.deliveriesOf_putDeliveries owner _ k

theorem deliveriesOf_acknowledge (c : Connection) (owner k : CallId) :
    (c.acknowledge owner).deliveriesOf k =
      if k = owner then (c.deliveriesOf owner).acknowledge else c.deliveriesOf k :=
  c.deliveriesOf_putDeliveries owner _ k

@[simp] theorem unacknowledged_deliver (c : Connection) (name : CallerName) (owner : CallId)
    (call : PipelinedCall) (k : CallId) :
    (c.deliver name owner call).unacknowledged k = c.unacknowledged k :=
  c.callers.total_modify_of_eq _ name fun _ => rfl

theorem unacknowledged_holdDelivery (c : Connection) {name : CallerName} {caller : Caller}
    (h : c.callers.get? name = some caller) (owner k : CallId) :
    (c.holdDelivery name owner).unacknowledged k = c.unacknowledged k + [owner].count k := by
  have htotal := c.callers.total_modify (fun r => r.held.count k) h
    (fun r => { r with held := r.held ++ [owner] })
  simp only [List.count_append] at htotal
  simp only [unacknowledged, holdDelivery]
  omega

/-! ## Where a call goes -/

/-- The deliveries that come of a pipelined call, in order. `depth` bounds how often receivers may
    forward it. -/
def deliveriesWithin : Nat → Connection → AnswerId → PipelinedCall → List Delivery
  | depth, c, id, call =>
      match c.route id call.path with
      | .ok (.caller name owner) =>
          { caller := name, owner := owner, call := call } ::
            match c.modeOf name, depth with
            | some (.forward target), depth + 1 =>
                deliveriesWithin depth c target { call with questionId := call.questionId - 1 }
            | _, _ => []
      | _ => []

/-- The deliveries that come of a pipelined call, in order. -/
def deliveriesOn (c : Connection) (id : AnswerId) (call : PipelinedCall) : List Delivery :=
  deliveriesWithin call.questionId.toNat c id call

/-- What becomes of a pipelined call. -/
inductive Goes (c : Connection) (id : AnswerId) (call : PipelinedCall) : Nat → Prop
  /-- It goes to no receiver. -/
  | nowhere {depth : Nat} {result : Except Error Forwarded}
      (route : ∀ name owner, c.route id call.path ≠ .ok (.caller name owner))
      (failed : result ≠ .ok .pipelined)
      (forward : forwardWithin depth c id call = (result, c))
      (made : deliveriesWithin depth c id call = []) : Goes c id call depth
  /-- The receiver keeps it. -/
  | held {depth : Nat} {name : CallerName} {owner : CallId}
      (route : c.route id call.path = .ok (.caller name owner)) (mode : c.modeOf name = some .hold)
      (forward : forwardWithin depth c id call =
        (.ok .pipelined, (c.deliver name owner call).holdDelivery name owner))
      (made : deliveriesWithin depth c id call = [⟨name, owner, call⟩]) : Goes c id call depth
  /-- The receiver acknowledges it at once. -/
  | acknowledged {depth : Nat} {name : CallerName} {owner : CallId}
      (route : c.route id call.path = .ok (.caller name owner)) (mode : c.modeOf name ≠ some .hold)
      (forward : forwardWithin depth c id call =
        (.ok .pipelined, (c.deliver name owner call).acknowledge owner))
      (made : deliveriesWithin depth c id call = [⟨name, owner, call⟩]) : Goes c id call depth
  /-- The receiver sends it to another answer and acknowledges it then. -/
  | onward {depth : Nat} {name : CallerName} {owner : CallId} {target : AnswerId}
      {less : PipelinedCall} {result : Except Error Forwarded} {d : Connection}
      (route : c.route id call.path = .ok (.caller name owner))
      (mode : c.modeOf name = some (.forward target))
      (lowered : less = { call with questionId := call.questionId - 1 })
      (nested : forwardWithin depth (c.deliver name owner call) target less = (result, d))
      (forward : forwardWithin (depth + 1) c id call =
        (.ok .pipelined, (d.emit (.nested result)).acknowledge owner))
      (made : deliveriesWithin (depth + 1) c id call =
        ⟨name, owner, call⟩ :: deliveriesWithin depth c target less) : Goes c id call (depth + 1)

theorem goes (c : Connection) (id : AnswerId) (call : PipelinedCall) (depth : Nat) :
    c.Goes id call depth := by
  cases hroute : c.route id call.path with
  | error e =>
      have hforward : forwardWithin depth c id call = (.error e, c) := by
        unfold forwardWithin
        rw [hroute]
      refine .nowhere (by simp [hroute]) (by simp) hforward ?_
      unfold deliveriesWithin
      rw [hroute]
  | ok r =>
      cases r with
      | target cap =>
          have hforward : forwardWithin depth c id call = (.ok (.resolved cap call), c) := by
            unfold forwardWithin
            rw [hroute]
          refine .nowhere (by simp [hroute]) (by simp) hforward ?_
          unfold deliveriesWithin
          rw [hroute]
      | caller name owner =>
          have hsame : ((c.deliver name owner call).callers.get? name).map Caller.mode =
              c.modeOf name := c.modeOf_deliver name owner call name
          cases hmode : c.modeOf name with
          | none =>
              refine .acknowledged hroute (by simp [hmode]) ?_ ?_
              · unfold forwardWithin
                simp only [hroute, hsame, hmode]
              · unfold deliveriesWithin
                simp only [hroute, hmode]
          | some mode =>
              cases mode with
              | hold =>
                  refine .held hroute hmode ?_ ?_
                  · unfold forwardWithin
                    simp only [hroute, hsame, hmode]
                  · unfold deliveriesWithin
                    simp only [hroute, hmode]
              | acknowledge =>
                  refine .acknowledged hroute (by simp [hmode]) ?_ ?_
                  · unfold forwardWithin
                    simp only [hroute, hsame, hmode]
                  · unfold deliveriesWithin
                    simp only [hroute, hmode]
              | forward target =>
                  cases depth with
                  | zero =>
                      refine .acknowledged hroute (by simp [hmode]) ?_ ?_
                      · unfold forwardWithin
                        simp only [hroute, hsame, hmode]
                      · unfold deliveriesWithin
                        simp only [hroute, hmode]
                  | succ depth =>
                      refine .onward hroute hmode rfl rfl ?_ ?_
                      · rw [forwardWithin]
                        simp only [hroute, hsame, hmode]
                      · rw [deliveriesWithin]
                        simp only [hroute, hmode]

/-! ## What the deliveries are -/

theorem route_of_books {c c' : Connection} (h : c'.books = c.books) (id : AnswerId)
    (path : List PathStep) : c'.route id path = c.route id path := by
  have hanswers : c'.answers = c.answers := congrArg Books.answers h
  have hmessages : c'.messages = c.messages := congrArg Books.messages h
  unfold route
  rw [hanswers, hmessages]

/-- A call goes to a receiver exactly if its answer has one. -/
theorem route_eq_caller_iff (c : Connection) (id : AnswerId) (path : List PathStep) (name : CallerName)
    (owner : CallId) : c.route id path = .ok (.caller name owner) ↔
      ∃ a, c.answers.get? id = some a ∧ a.caller = some name ∧ a.call = owner := by
  unfold route
  cases ha : c.answers.get? id with
  | none => simp
  | some a =>
      cases hcaller : a.caller with
      | some other => simp [hcaller]
      | none =>
          simp only [hcaller, Option.some.injEq, exists_eq_left', reduceCtorEq, false_and, iff_false]
          split
          · split
            · simp
            · split
              · next r _ => cases c.messages.resolve r path <;> simp [Except.map]
              · simp
          · simp

/-- Where calls go is a matter of the books and of what receivers do. -/
theorem deliveriesWithin_congr {c c' : Connection} (hbooks : c'.books = c.books)
    (hmodes : ∀ name, c'.modeOf name = c.modeOf name) (depth : Nat) (id : AnswerId)
    (call : PipelinedCall) : deliveriesWithin depth c' id call = deliveriesWithin depth c id call := by
  induction depth generalizing id call with
  | zero =>
      rw [deliveriesWithin, deliveriesWithin, route_of_books hbooks]
      cases c.route id call.path with
      | error e => rfl
      | ok r =>
          cases r with
          | target cap => rfl
          | caller name owner =>
              cases hmode : c.modeOf name with
              | none => simp only [hmodes, hmode]
              | some mode => cases mode <;> simp only [hmodes, hmode]
  | succ depth ih =>
      rw [deliveriesWithin, deliveriesWithin, route_of_books hbooks]
      cases c.route id call.path with
      | error e => rfl
      | ok r =>
          cases r with
          | target cap => rfl
          | caller name owner =>
              cases hmode : c.modeOf name with
              | none => simp only [hmodes, hmode]
              | some mode => cases mode <;> simp only [hmodes, hmode, ih]

/-- A delivery is of the call itself, or of the call with its question id lowered. -/
theorem mem_deliveriesWithin {c : Connection} {depth : Nat} {id : AnswerId} {call : PipelinedCall}
    {d : Delivery} (hd : d ∈ deliveriesWithin depth c id call) :
    d.call = call ∧ c.route id call.path = .ok (.caller d.caller d.owner) ∨
      ∃ less target, depth = less + 1 ∧
        d ∈ deliveriesWithin less c target { call with questionId := call.questionId - 1 } := by
  cases c.goes id call depth with
  | nowhere route failed forward made =>
      rw [made] at hd
      exact absurd hd List.not_mem_nil
  | held route mode forward made =>
      rw [made, List.mem_singleton] at hd
      subst hd
      exact Or.inl ⟨rfl, route⟩
  | acknowledged route mode forward made =>
      rw [made, List.mem_singleton] at hd
      subst hd
      exact Or.inl ⟨rfl, route⟩
  | @onward less _ _ target _ _ _ route mode lowered nested forward made =>
      rw [made, lowered, List.mem_cons] at hd
      rcases hd with rfl | hd
      · exact Or.inl ⟨rfl, route⟩
      · exact Or.inr ⟨less, target, rfl, hd⟩

/-- Every delivery goes to the receiver of the answer that it is on account of. -/
theorem answer_of_deliveriesWithin {c : Connection} {depth : Nat} {id : AnswerId} {call : PipelinedCall}
    {d : Delivery} (hd : d ∈ deliveriesWithin depth c id call) :
    ∃ j a, c.answers.get? j = some a ∧ a.caller = some d.caller ∧ a.call = d.owner := by
  induction depth generalizing id call with
  | zero =>
      rcases mem_deliveriesWithin hd with ⟨-, hroute⟩ | ⟨less, target, hless, -⟩
      · exact ⟨id, (c.route_eq_caller_iff ..).1 hroute⟩
      · exact absurd hless (Nat.zero_ne_add_one less)
  | succ depth ih =>
      rcases mem_deliveriesWithin hd with ⟨-, hroute⟩ | ⟨less, target, hless, hd⟩
      · exact ⟨id, (c.route_eq_caller_iff ..).1 hroute⟩
      · obtain rfl : depth = less := Nat.succ.inj hless
        exact ih hd

theorem toNat_questionId_sub_one {q : UInt32} {n : Nat} (h : n + 1 ≤ q.toNat) :
    (q - 1).toNat = q.toNat - 1 := by
  have hone : (1 : UInt32) ≤ q := UInt32.le_iff_toNat_le.2 (Nat.le_trans (Nat.succ_le_succ n.zero_le) h)
  exact UInt32.toNat_sub_of_le q 1 hone

/-- A receiver that forwards a call lowers its question id. -/
theorem questionId_le_of_deliveriesWithin {c : Connection} {depth : Nat} {id : AnswerId}
    {call : PipelinedCall} {d : Delivery} (hdepth : depth ≤ call.questionId.toNat)
    (hd : d ∈ deliveriesWithin depth c id call) :
    d.call.questionId.toNat ≤ call.questionId.toNat := by
  induction depth generalizing id call with
  | zero =>
      rcases mem_deliveriesWithin hd with ⟨hcall, -⟩ | ⟨less, target, hless, -⟩
      · exact Nat.le_of_eq (congrArg (fun p => p.questionId.toNat) hcall)
      · exact absurd hless (Nat.zero_ne_add_one less)
  | succ depth ih =>
      rcases mem_deliveriesWithin hd with ⟨hcall, -⟩ | ⟨less, target, hless, hd⟩
      · exact Nat.le_of_eq (congrArg (fun p => p.questionId.toNat) hcall)
      · obtain rfl : depth = less := Nat.succ.inj hless
        have hlower := toNat_questionId_sub_one hdepth
        have hle := ih (by dsimp only; omega) hd
        dsimp only at hle
        omega

/-! ## What they do -/

/-- The deliveries that receivers keep. -/
def kept (c : Connection) (made : List Delivery) : List Delivery :=
  made.filter fun d => c.modeOf d.caller = some .hold

/-- The deliveries that receivers acknowledge before they are done. -/
def unkept (c : Connection) (made : List Delivery) : List Delivery :=
  made.filter fun d => c.modeOf d.caller ≠ some .hold

theorem count_kept_add_count_unkept (c : Connection) (made : List Delivery) (k : CallId) :
    ((c.kept made).map Delivery.owner).count k + ((c.unkept made).map Delivery.owner).count k =
      (made.map Delivery.owner).count k := by
  induction made with
  | nil => rfl
  | cons d rest ih =>
      by_cases hd : c.modeOf d.caller = some .hold
      · have hkept : c.kept (d :: rest) = d :: c.kept rest := by simp [kept, hd]
        have hunkept : c.unkept (d :: rest) = c.unkept rest := by simp [unkept, hd]
        rw [hkept, hunkept, List.map_cons, List.map_cons, List.count_cons, List.count_cons]
        omega
      · have hkept : c.kept (d :: rest) = c.kept rest := by simp [kept, hd]
        have hunkept : c.unkept (d :: rest) = d :: c.unkept rest := by simp [unkept, hd]
        rw [hkept, hunkept, List.map_cons, List.map_cons, List.count_cons, List.count_cons]
        omega

/-- What comes of deliveries, all in all. -/
structure HandsOn (c : Connection) (made : List Delivery) (c' : Connection) : Prop where
  handed : c'.handedCalls = c.handedCalls ++ made.map fun d => (d.caller, d.call)
  modes : ∀ name, c'.modeOf name = c.modeOf name
  inFlight : ∀ k, (c'.deliveriesOf k).inFlight =
    (c.deliveriesOf k).inFlight + ((c.kept made).map Delivery.owner).count k
  unacknowledged : ∀ k,
    c'.unacknowledged k = c.unacknowledged k + ((c.kept made).map Delivery.owner).count k
  others : ∀ k, k ∉ made.map Delivery.owner → c'.deliveriesOf k = c.deliveriesOf k
  calm : (∀ k, (c.deliveriesOf k).Calm) → ∀ k, (c'.deliveriesOf k).Calm

theorem handsOn_nothing (c : Connection) : c.HandsOn [] c where
  handed := by simp
  modes name := rfl
  inFlight k := rfl
  unacknowledged k := rfl
  others k _ := rfl
  calm h := h

theorem handsOn_held (c : Connection) {name : CallerName} (owner : CallId) (call : PipelinedCall)
    (hmode : c.modeOf name = some .hold) :
    c.HandsOn [⟨name, owner, call⟩] ((c.deliver name owner call).holdDelivery name owner) := by
  have hkept : (c.kept [⟨name, owner, call⟩]).map Delivery.owner = [owner] := by simp [kept, hmode]
  have hdeliveries : ∀ k, ((c.deliver name owner call).holdDelivery name owner).deliveriesOf k =
      if k = owner then (c.deliveriesOf owner).add else c.deliveriesOf k :=
    c.deliveriesOf_deliver name owner call
  obtain ⟨caller, hcaller, -⟩ : ∃ r, (c.deliver name owner call).callers.get? name = some r ∧
      r.mode = .hold :=
    Option.map_eq_some_iff.1 ((c.modeOf_deliver name owner call name).trans hmode)
  constructor
  case handed => simp
  case modes => simp
  case inFlight =>
    intro k
    rw [hdeliveries, hkept, List.count_singleton]
    split
    · next hk => simp [hk]
    · next hk => simp [Ne.symm hk]
  case unacknowledged =>
    intro k
    rw [unacknowledged_holdDelivery _ hcaller, unacknowledged_deliver, hkept]
  case others =>
    intro k hk
    rw [hdeliveries, if_neg (by simpa using hk)]
  case calm =>
    intro hcalm k
    rw [hdeliveries]
    split
    · exact Deliveries.calm_add _
    · exact hcalm k

/-- A delivery that is acknowledged when the others have been made counts no longer. -/
theorem HandsOn.acknowledge {c d : Connection} {name : CallerName} {owner : CallId}
    {call : PipelinedCall} {made : List Delivery} (h : (c.deliver name owner call).HandsOn made d)
    (hmode : c.modeOf name ≠ some .hold) :
    c.HandsOn (⟨name, owner, call⟩ :: made) (d.acknowledge owner) := by
  have hkept : c.kept (⟨name, owner, call⟩ :: made) = (c.deliver name owner call).kept made := by
    simp [kept, hmode]
  constructor
  case handed => simp [h.handed]
  case modes =>
    intro other
    rw [modeOf_acknowledge, h.modes, modeOf_deliver]
  case inFlight =>
    intro k
    have hbefore := h.inFlight k
    rw [deliveriesOf_deliver] at hbefore
    rw [deliveriesOf_acknowledge, hkept]
    split
    · next hk =>
        subst hk
        rw [if_pos rfl, Deliveries.inFlight_add] at hbefore
        rw [Deliveries.inFlight_acknowledge]
        omega
    · next hk =>
        rw [if_neg hk] at hbefore
        exact hbefore
  case unacknowledged =>
    intro k
    have hbefore := h.unacknowledged k
    rw [unacknowledged_deliver] at hbefore
    rw [hkept]
    exact hbefore
  case others =>
    intro k hk
    rw [List.map_cons, List.mem_cons, not_or] at hk
    rw [deliveriesOf_acknowledge, if_neg hk.1, h.others k hk.2, deliveriesOf_deliver, if_neg hk.1]
  case calm =>
    intro hcalm k
    rw [deliveriesOf_acknowledge]
    split
    · exact Deliveries.calm_acknowledge _
    · refine h.calm (fun j => ?_) k
      rw [deliveriesOf_deliver]
      split
      · exact Deliveries.calm_add _
      · exact hcalm j

/-- What becomes of a nested call is only noted. -/
theorem HandsOn.nested {c d : Connection} {made : List Delivery} (h : c.HandsOn made d)
    (r : Except Error Forwarded) : c.HandsOn made (d.emit (.nested r)) where
  handed := (d.handedCalls_nested r).trans h.handed
  modes := h.modes
  inFlight := h.inFlight
  unacknowledged := h.unacknowledged
  others := h.others
  calm := h.calm

/-- A forwarded call comes to its deliveries, and to nothing else. -/
theorem forwardWithin_handsOn (depth : Nat) (c : Connection) (id : AnswerId) (call : PipelinedCall) :
    c.HandsOn (deliveriesWithin depth c id call) (forwardWithin depth c id call).2 := by
  induction depth generalizing c id call with
  | zero =>
      cases c.goes id call 0 with
      | nowhere route failed forward made =>
          rw [forward, made]
          exact c.handsOn_nothing
      | held route mode forward made =>
          rw [forward, made]
          exact c.handsOn_held _ call mode
      | acknowledged route mode forward made =>
          rw [forward, made]
          exact (handsOn_nothing _).acknowledge mode
  | succ depth ih =>
      cases c.goes id call (depth + 1) with
      | nowhere route failed forward made =>
          rw [forward, made]
          exact c.handsOn_nothing
      | held route mode forward made =>
          rw [forward, made]
          exact c.handsOn_held _ call mode
      | acknowledged route mode forward made =>
          rw [forward, made]
          exact (handsOn_nothing _).acknowledge mode
      | @onward _ name owner target less result d route mode lowered nested forward made =>
          -- with the first delivery in flight a call goes where it would have gone before
          have hnested := ih (c.deliver name owner call) target less
          rw [nested, deliveriesWithin_congr (books_deliver ..) (c.modeOf_deliver name owner call)]
            at hnested
          rw [forward, made]
          exact (hnested.nested result).acknowledge (by simp [mode])

theorem forward_handsOn (c : Connection) (id : AnswerId) (call : PipelinedCall) :
    c.HandsOn (c.deliveriesOn id call) (c.forward id call).2 :=
  forwardWithin_handsOn _ c id call

/-! ## What a forward gives -/

/-- A call that is pipelined was handed to the receiver of its answer, as it is; those that come of it have
    lower question ids. -/
theorem deliveriesOn_of_pipelined {c : Connection} {id : AnswerId} {call : PipelinedCall}
    (h : (c.forward id call).1 = .ok .pipelined) : ∃ a name nested,
      c.answers.get? id = some a ∧ a.caller = some name ∧
      c.deliveriesOn id call = ⟨name, a.call, call⟩ :: nested ∧
      ∀ d ∈ nested, d.call.questionId < call.questionId := by
  unfold forward at h
  unfold deliveriesOn
  generalize hdepth : call.questionId.toNat = depth at h ⊢
  cases c.goes id call depth with
  | nowhere route failed forward made =>
      rw [forward] at h
      exact absurd h failed
  | held route mode forward made =>
      obtain ⟨a, ha, hcaller, rfl⟩ := (c.route_eq_caller_iff ..).1 route
      exact ⟨a, _, [], ha, hcaller, made, by simp⟩
  | acknowledged route mode forward made =>
      obtain ⟨a, ha, hcaller, rfl⟩ := (c.route_eq_caller_iff ..).1 route
      exact ⟨a, _, [], ha, hcaller, made, by simp⟩
  | @onward n name owner target less result d route mode lowered nested forward made =>
      obtain ⟨a, ha, hcaller, rfl⟩ := (c.route_eq_caller_iff ..).1 route
      refine ⟨a, name, _, ha, hcaller, made, fun x hx => UInt32.lt_iff_toNat_lt.2 ?_⟩
      have hlower := toNat_questionId_sub_one (Nat.le_of_eq hdepth.symm)
      have hle := questionId_le_of_deliveriesWithin (by rw [lowered]; dsimp only; omega) hx
      rw [lowered] at hle
      dsimp only at hle
      omega

/-- A call is pipelined exactly if its answer has a receiver. -/
theorem forwardWithin_eq_pipelined_iff (depth : Nat) (c : Connection) (id : AnswerId)
    (call : PipelinedCall) : (forwardWithin depth c id call).1 = .ok .pipelined ↔
      ∃ a name, c.answers.get? id = some a ∧ a.caller = some name := by
  cases c.goes id call depth with
  | nowhere route failed forward made =>
      rw [forward]
      refine iff_of_false failed ?_
      rintro ⟨a, name, ha, hcaller⟩
      exact route name a.call ((c.route_eq_caller_iff ..).2 ⟨a, ha, hcaller, rfl⟩)
  | held route mode forward made =>
      obtain ⟨a, ha, hcaller, -⟩ := (c.route_eq_caller_iff ..).1 route
      rw [forward]
      exact iff_of_true rfl ⟨a, _, ha, hcaller⟩
  | acknowledged route mode forward made =>
      obtain ⟨a, ha, hcaller, -⟩ := (c.route_eq_caller_iff ..).1 route
      rw [forward]
      exact iff_of_true rfl ⟨a, _, ha, hcaller⟩
  | onward route mode lowered nested forward made =>
      obtain ⟨a, ha, hcaller, -⟩ := (c.route_eq_caller_iff ..).1 route
      rw [forward]
      exact iff_of_true rfl ⟨a, _, ha, hcaller⟩

/-- A call that is not pipelined changes nothing, and nobody is handed it. -/
theorem forwardWithin_of_not_pipelined {depth : Nat} {c : Connection} {id : AnswerId}
    {call : PipelinedCall} (h : (forwardWithin depth c id call).1 ≠ .ok .pipelined) :
    (forwardWithin depth c id call).2 = c ∧ deliveriesWithin depth c id call = [] := by
  cases c.goes id call depth with
  | nowhere route failed forward made => exact ⟨congrArg Prod.snd forward, made⟩
  | held route mode forward made => exact absurd (congrArg Prod.fst forward) h
  | acknowledged route mode forward made => exact absurd (congrArg Prod.fst forward) h
  | onward route mode lowered nested forward made => exact absurd (congrArg Prod.fst forward) h

/-! ## Steps -/

/-- The deliveries that an action makes. -/
def delivers (c : Connection) : Action → List Delivery
  | .forward id call => c.deliveriesOn id call
  | _ => []

/-- The deliveries that an action has acknowledged, each by the call on whose account it was made. -/
def acknowledges (c : Connection) : Action → List CallId
  | .forward id call => (c.unkept (c.deliveriesOn id call)).map Delivery.owner
  | .acknowledge name count =>
      ((c.callers.get? name).map fun r => r.held.take (count.getD r.held.length)).getD []
  | _ => []

end Connection

end Callee
