import Callee.Script.Result
import Callee.Deliveries

set_option autoImplicit false

/-! # Scripts on delivery counts

Counts, the deliveries they count and the waits on them, by name. A count may have several names, and
lives on without any as long as a delivery or a wait refers to it. -/

namespace Callee.Script

/-- Delivery counts and what a script holds of them. A count is known by its place in `counts`. -/
structure Joins where
  counts : List Deliveries := []
  counters : Table String Nat := .empty
  /-- The deliveries in flight. -/
  deliveries : Table String Nat := .empty
  waits : Table String (Nat × Wait) := .empty

/-- A step on delivery counts. -/
inductive JoinStep where
  | create (name : String)
  | share (counter : String) (name : String)
  | dropCounter (counter : String)
  | add (counter : String) (name : String)
  | acknowledge (delivery : String)
  | wait (counter : String) (name : String) (lazy : Bool)
  | poll (wait : String)
  | dropWait (wait : String)
  | unknown
  deriving DecidableEq

namespace Joins

/-- Changes a count. -/
def modify (j : Joins) (count : Nat) (f : Deliveries → Deliveries) : Joins :=
  { j with counts := j.counts.modify count f }

/-- A count by its place. -/
def count (j : Joins) (count : Nat) : Deliveries :=
  j.counts.getD count {}

/-! ## Steps -/

/-- Stores a delivery under a name. The delivery that was there is dropped, and so acknowledged. -/
def keepDelivery (j : Joins) (name : String) (count : Nat) : Joins :=
  let old := j.deliveries.get? name
  let j := { j with deliveries := j.deliveries.insert name count }
  match old with
  | some old => j.modify old Deliveries.acknowledge
  | none => j

/-- Polls a wait. It is gone when it is over. -/
def pollWait (j : Joins) (name : String) : Result × Joins :=
  match j.waits.get? name with
  | none => (.skipped, j)
  | some (count, wait) =>
      let (left, d) := (j.count count).poll wait
      let j := j.modify count fun _ => d
      match left with
      | some wait => (.pending, { j with waits := j.waits.insert name (count, wait) })
      | none => (.ready none, { j with waits := j.waits.erase name })

/-- Carries out one step. -/
def step (j : Joins) : JoinStep → Result × Joins
  | .create name =>
      (.done, { j with
        counts := j.counts ++ [{}]
        counters := j.counters.insert name j.counts.length })
  | .share counter name =>
      match j.counters.get? counter with
      | none => (.skipped, j)
      | some count => (.done, { j with counters := j.counters.insert name count })
  | .dropCounter counter =>
      if j.counters.contains counter then
        (.done, { j with counters := j.counters.erase counter })
      else (.skipped, j)
  | .add counter name =>
      match j.counters.get? counter with
      | none => (.skipped, j)
      | some count => (.done, (j.modify count Deliveries.add).keepDelivery name count)
  | .acknowledge delivery =>
      match j.deliveries.get? delivery with
      | none => (.skipped, j)
      | some count =>
          (.done, ({ j with deliveries := j.deliveries.erase delivery }).modify count
            Deliveries.acknowledge)
  | .wait counter name lazy =>
      match j.counters.get? counter with
      | none => (.skipped, j)
      | some count =>
          let j := { j with waits := j.waits.insert name (count, .unasked) }
          if lazy then (.created, j) else j.pollWait name
  | .poll wait => j.pollWait wait
  | .dropWait wait =>
      if j.waits.contains wait then (.done, { j with waits := j.waits.erase wait })
      else (.skipped, j)
  | .unknown => (.skipped, j)

/-! ## Runs -/

/-- The deliveries in flight of each count, by name. -/
def view (j : Joins) : List (String × Nat) :=
  j.counters.entries.map fun e => (e.1, (j.count e.2).inFlight)

/-- What is recorded of one step. -/
structure Record where
  result : Result
  view : List (String × Nat)

/-- Carries out a script from left to right and records each step. -/
def run (j : Joins) : List JoinStep → List Record × Joins
  | [] => ([], j)
  | step :: rest =>
      let (result, after) := j.step step
      let (records, last) := after.run rest
      ({ result := result, view := after.view } :: records, last)

end Joins

end Callee.Script
