import Callee.Names

set_option autoImplicit false

/-! # Counting deliveries

A call that was handed on and not yet acknowledged is in flight. A `Deliveries` counts those of one
answer and keeps the places of everyone who waits for the count to fall to zero. The waiters are let
go together at the moment the count does fall to zero, and stay let go when it rises again later:
`poll` of a queued wait looks at its place in the queue and never at the count. -/

namespace Callee

/-- The deliveries of one answer that nobody has acknowledged. -/
structure Deliveries where
  inFlight : Nat := 0
  /-- The places of those who wait for the count to fall to zero, the first one in front. -/
  waiting : List Ticket := []
  nextTicket : Ticket := 0
  deriving DecidableEq

/-- A wait for the count to fall to zero. -/
inductive Wait where
  /-- It has not looked at the count. -/
  | unasked
  /-- It found deliveries in flight and took a place. -/
  | queued (place : Ticket)
  deriving DecidableEq

namespace Deliveries

/-- One more delivery is in flight. -/
def add (d : Deliveries) : Deliveries :=
  { d with inFlight := d.inFlight + 1 }

/-- One delivery is acknowledged. The last one lets every waiter go. -/
def acknowledge (d : Deliveries) : Deliveries :=
  { d with
    inFlight := d.inFlight - 1
    waiting := if d.inFlight - 1 = 0 then [] else d.waiting }

/-- Looks whether a wait is over. It gives `none` when it is, and what is left to wait for
    otherwise. -/
def poll (d : Deliveries) : Wait → Option Wait × Deliveries
  | .unasked =>
      if d.inFlight = 0 then (none, d)
      else
        (some (.queued d.nextTicket),
          { d with
            waiting := d.waiting ++ [d.nextTicket]
            nextTicket := d.nextTicket + 1 })
  | .queued place => if place ∈ d.waiting then (some (.queued place), d) else (none, d)

/-! ## What each operation does to the count -/

@[simp] theorem inFlight_add (d : Deliveries) : d.add.inFlight = d.inFlight + 1 := rfl

@[simp] theorem inFlight_acknowledge (d : Deliveries) :
    d.acknowledge.inFlight = d.inFlight - 1 := rfl

@[simp] theorem inFlight_poll (d : Deliveries) (w : Wait) : (d.poll w).2.inFlight = d.inFlight := by
  cases w with
  | unasked => simp only [poll]; split <;> rfl
  | queued place => simp only [poll]; split <;> rfl

theorem poll_unasked_eq_none_iff (d : Deliveries) : (d.poll .unasked).1 = none ↔ d.inFlight = 0 := by
  simp only [poll]; split <;> simp_all

theorem poll_queued_eq_none_iff (d : Deliveries) (place : Ticket) :
    (d.poll (.queued place)).1 = none ↔ place ∉ d.waiting := by
  simp only [poll]; split <;> simp_all

end Deliveries

end Callee
