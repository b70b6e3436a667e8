import Callee.Proofs.GivingUp
import Callee.Script.Joins

set_option autoImplicit false

/-! # Waiting for deliveries

A script may hold any number of delivery counts, under several names each, and any number of deliveries and waits
on them. Each of its steps takes a count through one `Turn`, and a turn lets a waiter go exactly if the count is
zero after it (`Turn.waits_iff`). Hence the queue of a count tells its history: whoever took a place in it and is
still there has never seen the count at zero (`waits_after`), and whoever is not there has.

`countsDeliveries` says what this comes to for every script. -/

namespace Callee

theorem Table.count_values {κ α : Type} [DecidableEq κ] [DecidableEq α] (t : Table κ α) (x : α) :
    t.values.count x = t.total fun v => (v == x).toNat :=
  t.countP_values (· == x)

theorem Table.count_values_insert {κ α : Type} [DecidableEq κ] [DecidableEq α] (t : Table κ α) (k : κ) (v x : α) :
    (t.insert k v).values.count x + (if t.get? k = some x then 1 else 0) =
      t.values.count x + if v = x then 1 else 0 := by
  have hsum := t.total_insert (fun v => (v == x).toNat) k v
  rw [count_values, count_values]
  cases hk : t.get? k with
  | none => simpa [hk, Bool.toNat, Bool.cond_eq_ite] using hsum
  | some w => simpa [hk, Bool.toNat, Bool.cond_eq_ite] using hsum

theorem Table.count_values_erase {κ α : Type} [DecidableEq κ] [DecidableEq α] (t : Table κ α) (k : κ) (x : α) :
    (t.erase k).values.count x + (if t.get? k = some x then 1 else 0) = t.values.count x := by
  have hsum := t.total_erase (fun v => (v == x).toNat) k
  rw [count_values, count_values]
  cases hk : t.get? k with
  | none => simpa [hk] using hsum
  | some w => simpa [hk, Bool.toNat, Bool.cond_eq_ite] using hsum

/-! ## Turns of a count -/

namespace Deliveries

/-- What a step makes of a count, and of the number of deliveries that are held of it. -/
inductive Turn (d : Deliveries) (live : Nat) : Deliveries → Nat → Prop
  | rests : Turn d live d live
  | adds : Turn d live d.add (live + 1)
  | acknowledges {left : Nat} (held : live = left + 1) : Turn d live d.acknowledge left
  /-- A new delivery takes the place of one that is acknowledged. -/
  | trades : Turn d live d.add.acknowledge live
  | polls (w : Wait) : Turn d live (d.poll w).2 live

theorem nextTicket_le_poll (d : Deliveries) (w : Wait) : d.nextTicket ≤ (d.poll w).2.nextTicket := by
  cases w with
  | unasked => simp only [poll]; split <;> simp
  | queued place => simp only [poll]; split <;> simp

/-- A poll takes nobody out of the queue, and puts in at most the next place. -/
theorem mem_waiting_poll (d : Deliveries) (w : Wait) {place : Ticket}
    (h : place ∉ d.waiting → place < d.nextTicket) : place ∈ (d.poll w).2.waiting ↔ place ∈ d.waiting := by
  have hnew : place = d.nextTicket → place ∈ d.waiting := fun heq => by
    by_contra hout
    exact Nat.lt_irrefl _ (heq ▸ h hout)
  cases w with
  | unasked =>
      simp only [poll]
      split
      · rfl
      · simpa using hnew
  | queued other => simp only [poll]; split <;> simp

/-- What is left to wait for after a poll. -/
theorem poll_eq_some {d : Deliveries} {w left : Wait} (h : (d.poll w).1 = some left) :
    w = .unasked ∧ d.inFlight ≠ 0 ∧ left = .queued d.nextTicket ∨ (∃ place, w = .queued place) ∧ left = w := by
  cases w with
  | unasked =>
      simp only [poll] at h
      split at h
      · exact absurd h (by simp)
      · next hbusy => exact Or.inl ⟨rfl, hbusy, (Option.some.inj h).symm⟩
  | queued place =>
      simp only [poll] at h
      split at h
      · exact Or.inr ⟨⟨place, rfl⟩, (Option.some.inj h).symm⟩
      · exact absurd h (by simp)

/-- A first poll that takes a place takes the next one. -/
theorem poll_unasked {d : Deliveries} (h : d.inFlight ≠ 0) :
    d.nextTicket ∈ (d.poll .unasked).2.waiting ∧ d.nextTicket < (d.poll .unasked).2.nextTicket := by
  simp [poll, h]

theorem mem_waiting_acknowledge (d : Deliveries) (place : Ticket) :
    place ∈ d.acknowledge.waiting ↔ place ∈ d.waiting ∧ d.acknowledge.inFlight ≠ 0 := by
  by_cases hlast : d.inFlight - 1 = 0
  · simp [acknowledge, hlast]
  · simp [acknowledge, hlast]

theorem Calm.inFlight_ne_zero {d : Deliveries} (h : d.Calm) {place : Ticket} (hin : place ∈ d.waiting) :
    d.inFlight ≠ 0 := by
  intro hnone
  rw [h hnone] at hin
  exact absurd hin (by simp)

namespace Turn

variable {d d' : Deliveries} {live live' : Nat}

theorem counted (t : Turn d live d' live') (h : d.inFlight = live) : d'.inFlight = live' := by
  cases t with
  | rests => exact h
  | adds => exact congrArg Nat.succ h
  | acknowledges held => simp [h, held]
  | trades => simpa using h
  | polls w => simpa using h

theorem calm (t : Turn d live d' live') (h : d.Calm) : d'.Calm := by
  cases t with
  | rests => exact h
  | adds => exact d.calm_add
  | acknowledges held => exact d.calm_acknowledge
  | trades => exact d.add.calm_acknowledge
  | polls w => exact h.poll w

theorem nextTicket_le (t : Turn d live d' live') : d.nextTicket ≤ d'.nextTicket := by
  cases t with
  | polls w => exact d.nextTicket_le_poll w
  | _ => exact Nat.le_refl _

/-- Who has a place keeps it exactly as long as the count is not zero. -/
theorem waits_iff (t : Turn d live d' live') (hcalm : d.Calm) {place : Ticket}
    (h : place ∉ d.waiting → place < d.nextTicket) : place ∈ d'.waiting ↔ place ∈ d.waiting ∧ d'.inFlight ≠ 0 := by
  cases t with
  | rests => exact ⟨fun hin => ⟨hin, hcalm.inFlight_ne_zero hin⟩, And.left⟩
  | adds => simp [add]
  | acknowledges held => exact d.mem_waiting_acknowledge place
  | trades => exact d.add.mem_waiting_acknowledge place
  | polls w =>
      rw [d.mem_waiting_poll w h, d.inFlight_poll w]
      exact ⟨fun hin => ⟨hin, hcalm.inFlight_ne_zero hin⟩, And.left⟩

end Turn

end Deliveries

namespace Script.Joins

/-! ## Scripts -/

/-- The counts, and what is held of them, when a script is over. -/
def after (steps : List JoinStep) : Joins := (({} : Joins).run steps).2

theorem run_append (j : Joins) (steps more : List JoinStep) :
    (j.run (steps ++ more)).2 = ((j.run steps).2.run more).2 := by
  induction steps generalizing j with
  | nil => rfl
  | cons s rest ih => exact ih (j.step s).2

theorem after_append_one (steps : List JoinStep) (s : JoinStep) :
    after (steps ++ [s]) = ((after steps).step s).2 :=
  run_append {} steps [s]

/-! ## Counts and deliveries -/

theorem count_modify {j : Joins} {m : Nat} {f : Deliveries → Deliveries}
    (h : j.counts.length ≤ m → f (j.count m) = j.count m) (n : Nat) :
    (j.modify m f).count n = if n = m then f (j.count m) else j.count n := by
  unfold modify count
  rw [List.getD_eq_getElem?_getD, List.getElem?_modify]
  by_cases hn : n = m
  · subst hn
    by_cases hlen : n < j.counts.length
    · simp [hlen]
    · simpa [count, hlen] using (h (Nat.le_of_not_lt hlen)).symm
  · have hm : ¬ m = n := fun he => hn he.symm
    simp [hn, hm]

theorem count_of_length_le {j : Joins} {m : Nat} (h : j.counts.length ≤ m) : j.count m = {} := by
  simp [count, h]

theorem count_acknowledge (j : Joins) (m n : Nat) :
    (j.modify m Deliveries.acknowledge).count n = if n = m then (j.count m).acknowledge else j.count n :=
  count_modify (fun h => by rw [count_of_length_le h]; rfl) n

theorem count_polled (j : Joins) (m : Nat) (w : Wait) (n : Nat) :
    (j.modify m fun _ => ((j.count m).poll w).2).count n =
      if n = m then ((j.count m).poll w).2 else j.count n :=
  count_modify (fun h => by rw [count_of_length_le h]; cases w <;> rfl) n

/-- A step takes a count through a turn. -/
def Turns (j j' : Joins) : Prop :=
  ∀ n, (j.count n).Turn (j.deliveries.values.count n) (j'.count n) (j'.deliveries.values.count n)

theorem turns_of_eq {j j' : Joins} (counts : ∀ n, j'.count n = j.count n)
    (deliveries : j'.deliveries = j.deliveries) : j.Turns j' := by
  intro n
  rw [counts, deliveries]
  exact .rests

/-- Every name of a count is that of one that is there. -/
def Placed (j : Joins) : Prop :=
  ∀ name n, j.counters.get? name = some n → n < j.counts.length

theorem count_create (j : Joins) (name : String) (n : Nat) :
    (j.step (.create name)).2.count n = j.count n := by
  simp only [step, count, List.getD_eq_getElem?_getD, List.getElem?_append]
  split
  · rfl
  · next hlen =>
      rw [List.getElem?_eq_none (Nat.le_of_not_lt hlen), List.getElem?_singleton]
      split <;> rfl

@[simp] theorem deliveries_keepDelivery (j : Joins) (name : String) (m : Nat) :
    (j.keepDelivery name m).deliveries = j.deliveries.insert name m := by
  unfold keepDelivery
  cases j.deliveries.get? name <;> rfl

theorem count_keepDelivery (j : Joins) (name : String) (m n : Nat) :
    (j.keepDelivery name m).count n =
      if j.deliveries.get? name = some n then (j.count n).acknowledge else j.count n := by
  unfold keepDelivery
  cases hold : j.deliveries.get? name with
  | none => rfl
  | some old =>
      refine (count_acknowledge { j with deliveries := j.deliveries.insert name m } old n).trans ?_
      by_cases hn : n = old
      · subst hn
        simp [count]
      · simp [count, hn, Ne.symm hn]

/-- A new delivery of one count may take the name of an old one. That one is acknowledged. -/
theorem turns_keepDelivery {j : Joins} {m : Nat} (h : m < j.counts.length) (name : String) :
    j.Turns ((j.modify m Deliveries.add).keepDelivery name m) := by
  intro n
  have hadd : (j.modify m Deliveries.add).count n = if n = m then (j.count m).add else j.count n :=
    count_modify (fun hle => absurd h (Nat.not_lt.2 hle)) n
  have hname : (j.modify m Deliveries.add).deliveries = j.deliveries := rfl
  have hlive := j.deliveries.count_values_insert name m n
  rw [count_keepDelivery, deliveries_keepDelivery, hname, hadd]
  by_cases hold : j.deliveries.get? name = some n
  · by_cases hn : n = m
    · subst hn
      have hsame : (j.deliveries.insert name n).values.count n = j.deliveries.values.count n := by
        simpa [hold] using hlive
      rw [if_pos hold, if_pos rfl, hsame]
      exact .trades
    · rw [if_pos hold, if_neg hn]
      exact .acknowledges (by simpa [hold, Ne.symm hn] using hlive.symm)
  · by_cases hn : n = m
    · subst hn
      have hmore : (j.deliveries.insert name n).values.count n = j.deliveries.values.count n + 1 := by
        simpa [hold] using hlive
      rw [if_neg hold, if_pos rfl, hmore]
      exact .adds
    · have hsame : (j.deliveries.insert name m).values.count n = j.deliveries.values.count n := by
        simpa [hold, Ne.symm hn] using hlive
      rw [if_neg hold, if_neg hn, hsame]
      exact .rests

theorem turns_acknowledge {j : Joins} {name : String} {m : Nat} (h : j.deliveries.get? name = some m) :
    j.Turns (({ j with deliveries := j.deliveries.erase name }).modify m Deliveries.acknowledge) := by
  intro n
  have hlive := j.deliveries.count_values_erase name n
  have hcount := count_acknowledge { j with deliveries := j.deliveries.erase name } m n
  change Deliveries.Turn _ _ _ ((j.deliveries.erase name).values.count n)
  rw [hcount]
  by_cases hn : n = m
  · subst hn
    rw [if_pos rfl]
    exact .acknowledges (by simpa [h] using hlive.symm)
  · have hsame : (j.deliveries.erase name).values.count n = j.deliveries.values.count n := by
      simpa [h, Ne.symm hn] using hlive
    rw [if_neg hn, hsame]
    exact .rests

theorem pollWait_cases {j : Joins} {name : String} {m : Nat} {w : Wait} (h : j.waits.get? name = some (m, w)) :
    (∃ left, ((j.count m).poll w).1 = some left ∧ j.pollWait name = (.pending,
        { j.modify m fun _ => ((j.count m).poll w).2 with waits := j.waits.insert name (m, left) })) ∨
      ((j.count m).poll w).1 = none ∧ j.pollWait name = (.ready none,
        { j.modify m fun _ => ((j.count m).poll w).2 with waits := j.waits.erase name }) := by
  unfold pollWait
  rw [h]
  rcases hleft : (j.count m).poll w with ⟨left, d⟩
  cases left with
  | some left => exact Or.inl ⟨left, rfl, by simp only [hleft]; rfl⟩
  | none => exact Or.inr ⟨rfl, by simp only [hleft]; rfl⟩

theorem turns_pollWait (j : Joins) (name : String) : j.Turns (j.pollWait name).2 := by
  cases hwait : j.waits.get? name with
  | none =>
      unfold pollWait
      rw [hwait]
      exact turns_of_eq (fun n => rfl) rfl
  | some entry =>
      obtain ⟨m, w⟩ := entry
      have hpolled : j.Turns (j.modify m fun _ => ((j.count m).poll w).2) := by
        intro n
        rw [count_polled]
        by_cases hn : n = m
        · subst hn
          rw [if_pos rfl]
          exact .polls w
        · rw [if_neg hn]
          exact .rests
      rcases pollWait_cases hwait with ⟨left, -, heq⟩ | ⟨-, heq⟩ <;> rw [heq] <;> exact hpolled

/-- Every step takes every count through a turn. -/
theorem turns_step {j : Joins} (hj : j.Placed) (s : JoinStep) : j.Turns (j.step s).2 := by
  cases s with
  | create name => exact turns_of_eq (j.count_create name) rfl
  | share counter name =>
      simp only [step]
      cases j.counters.get? counter <;> exact turns_of_eq (fun n => rfl) rfl
  | dropCounter counter =>
      simp only [step]
      split <;> exact turns_of_eq (fun n => rfl) rfl
  | add counter name =>
      simp only [step]
      cases hcounter : j.counters.get? counter with
      | none => exact turns_of_eq (fun n => rfl) rfl
      | some m => exact turns_keepDelivery (hj counter m hcounter) name
  | acknowledge delivery =>
      simp only [step]
      cases hdelivery : j.deliveries.get? delivery with
      | none => exact turns_of_eq (fun n => rfl) rfl
      | some m => exact turns_acknowledge hdelivery
  | wait counter name lazy =>
      simp only [step]
      cases j.counters.get? counter with
      | none => exact turns_of_eq (fun n => rfl) rfl
      | some m =>
          cases lazy with
          | true => exact turns_of_eq (fun n => rfl) rfl
          | false => exact turns_pollWait { j with waits := j.waits.insert name (m, .unasked) } name
  | poll wait => exact j.turns_pollWait wait
  | dropWait wait =>
      simp only [step]
      split <;> exact turns_of_eq (fun n => rfl) rfl
  | unknown => exact turns_of_eq (fun n => rfl) rfl

/-! ## Names of counts -/

theorem Placed.of_eq {j j' : Joins} (hj : j.Placed) (counters : j'.counters = j.counters)
    (counts : j'.counts.length = j.counts.length) : j'.Placed := by
  intro name n h
  rw [counters] at h
  rw [counts]
  exact hj name n h

theorem Placed.insert {j : Joins} (hj : j.Placed) {n : Nat} (h : n < j.counts.length) (name : String) :
    ({ j with counters := j.counters.insert name n } : Joins).Placed := by
  intro other m hm
  rcases Table.get?_of_replaced (Or.inl rfl) hm with ⟨-, rfl⟩ | ⟨-, hold⟩
  · exact h
  · exact hj other m hold

theorem Placed.erase {j : Joins} (hj : j.Placed) (name : String) :
    ({ j with counters := j.counters.erase name } : Joins).Placed := by
  intro other m hm
  rw [Table.get?_erase] at hm
  split at hm
  · exact absurd hm (by simp)
  · exact hj other m hm

theorem placed_pollWait {j : Joins} (hj : j.Placed) (name : String) : (j.pollWait name).2.Placed := by
  cases hwait : j.waits.get? name with
  | none =>
      unfold pollWait
      rw [hwait]
      exact hj
  | some entry =>
      obtain ⟨m, w⟩ := entry
      rcases pollWait_cases hwait with ⟨left, -, heq⟩ | ⟨-, heq⟩ <;> rw [heq] <;>
        exact hj.of_eq rfl (List.length_modify ..)

theorem placed_step {j : Joins} (hj : j.Placed) (s : JoinStep) : (j.step s).2.Placed := by
  cases s with
  | create name =>
      have hmore : ({ j with counts := j.counts ++ [{}] } : Joins).Placed := fun other n h => by
        simpa using Nat.lt_succ_of_lt (hj other n h)
      exact hmore.insert (by simp) name
  | share counter name =>
      simp only [step]
      cases hcounter : j.counters.get? counter with
      | none => exact hj
      | some m => exact hj.insert (hj counter m hcounter) name
  | dropCounter counter =>
      simp only [step]
      split
      · exact hj.erase counter
      · exact hj
  | add counter name =>
      simp only [step]
      cases j.counters.get? counter with
      | none => exact hj
      | some m =>
          refine hj.of_eq ?_ ?_ <;> simp only [keepDelivery] <;> split <;> simp [modify]
  | acknowledge delivery =>
      simp only [step]
      cases j.deliveries.get? delivery with
      | none => exact hj
      | some m => exact hj.of_eq rfl (List.length_modify ..)
  | wait counter name lazy =>
      simp only [step]
      cases j.counters.get? counter with
      | none => exact hj
      | some m =>
          cases lazy with
          | true => exact hj
          | false => exact placed_pollWait (j := { j with waits := j.waits.insert name (m, .unasked) }) hj name
  | poll wait => exact placed_pollWait hj wait
  | dropWait wait =>
      simp only [step]
      split <;> exact hj
  | unknown => exact hj

/-! ## Where a wait comes from -/

/-- The step polls a wait on the count `n` for the first time. -/
inductive FirstPoll (j : Joins) (name : String) (n : Nat) : JoinStep → Prop
  /-- It was not polled when it was made. -/
  | late (wait : j.waits.get? name = some (n, .unasked)) : FirstPoll j name n (.poll name)
  /-- It is polled as it is made. -/
  | atOnce {counter : String} (count : j.counters.get? counter = some n) :
      FirstPoll j name n (.wait counter name false)

/-- How a wait comes to be held after a step. -/
inductive Stems (j : Joins) (s : JoinStep) (name : String) (n : Nat) : Wait → Prop
  | kept {w : Wait} (wait : j.waits.get? name = some (n, w)) (unpolled : w = .unasked → s ≠ .poll name) :
      Stems j s name n w
  | made {counter : String} (step : s = .wait counter name true) (count : j.counters.get? counter = some n) :
      Stems j s name n .unasked
  | polled {w : Wait} (first : j.FirstPoll name n s) : Stems j s name n w

/-- A first poll is a poll of a wait that was not polled. -/
theorem FirstPoll.step_eq {j : Joins} {name : String} {n : Nat} {s : JoinStep} (h : j.FirstPoll name n s) :
    ∃ k : Joins, k.counts = j.counts ∧ k.waits.get? name = some (n, .unasked) ∧ j.step s = k.pollWait name := by
  cases h with
  | late wait => exact ⟨j, rfl, wait, rfl⟩
  | @atOnce counter count =>
      refine ⟨{ j with waits := j.waits.insert name (n, .unasked) }, rfl, by simp, ?_⟩
      simp [step, count]

/-- It is over at once exactly if the count is zero. -/
theorem FirstPoll.result {j : Joins} {name : String} {n : Nat} {s : JoinStep} (h : j.FirstPoll name n s) :
    (j.step s).1 = if (j.count n).inFlight = 0 then .ready none else .pending := by
  obtain ⟨k, hcounts, hwait, heq⟩ := h.step_eq
  have hsame : k.count n = j.count n := by simp [count, hcounts]
  rw [heq]
  rcases pollWait_cases hwait with ⟨left, hleft, hpoll⟩ | ⟨hleft, hpoll⟩ <;> rw [hpoll]
  · have hbusy : (j.count n).inFlight ≠ 0 := by
      intro hnone
      rw [hsame, (Deliveries.poll_unasked_eq_none_iff _).2 hnone] at hleft
      exact absurd hleft (by simp)
    rw [if_neg hbusy]
  · rw [hsame, Deliveries.poll_unasked_eq_none_iff] at hleft
    rw [if_pos hleft]

theorem stems_pollWait {j : Joins} {polled name : String} {n : Nat} {w : Wait}
    (h : (j.pollWait polled).2.waits.get? name = some (n, w)) :
    j.waits.get? name = some (n, w) ∧ (w = .unasked → name ≠ polled) ∨
      name = polled ∧ j.waits.get? name = some (n, .unasked) ∧ (j.count n).inFlight ≠ 0 ∧
        w = .queued (j.count n).nextTicket ∧
        (j.pollWait polled).2.count n = ((j.count n).poll .unasked).2 := by
  cases hwait : j.waits.get? polled with
  | none =>
      unfold pollWait at h
      rw [hwait] at h
      refine Or.inl ⟨h, fun _ heq => ?_⟩
      rw [heq, hwait] at h
      exact absurd h (by simp)
  | some entry =>
      obtain ⟨m, v⟩ := entry
      rcases pollWait_cases hwait with ⟨left, hleft, heq⟩ | ⟨-, heq⟩ <;> rw [heq] at h ⊢
      · rcases Table.get?_of_replaced (Or.inl rfl) h with ⟨rfl, hentry⟩ | ⟨hne, hold⟩
        · obtain ⟨rfl, rfl⟩ := Prod.mk.inj hentry
          rcases Deliveries.poll_eq_some hleft with ⟨rfl, hbusy, rfl⟩ | ⟨⟨place, rfl⟩, rfl⟩
          · exact Or.inr ⟨rfl, hwait, hbusy, rfl, (j.count_polled n .unasked n).trans (if_pos rfl)⟩
          · exact Or.inl ⟨hwait, fun hun => absurd hun (by simp)⟩
        · exact Or.inl ⟨hold, fun _ => hne⟩
      · rw [Table.get?_erase] at h
        split at h
        · exact absurd h (by simp)
        · next hne => exact Or.inl ⟨h, fun _ => hne⟩

/-- It is over at once or takes the next place. -/
theorem FirstPoll.queued {j : Joins} {name : String} {n : Nat} {s : JoinStep} (h : j.FirstPoll name n s) {w : Wait}
    (hw : (j.step s).2.waits.get? name = some (n, w)) :
    w = .queued (j.count n).nextTicket ∧ (j.count n).nextTicket ∈ ((j.step s).2.count n).waiting ∧
      (j.count n).nextTicket < ((j.step s).2.count n).nextTicket := by
  obtain ⟨k, hcounts, hwait, heq⟩ := h.step_eq
  have hsame : k.count n = j.count n := by simp [count, hcounts]
  rw [heq] at hw ⊢
  rcases stems_pollWait hw with ⟨hold, hun⟩ | ⟨-, -, hbusy, rfl, hafter⟩
  · rw [hwait] at hold
    exact absurd rfl (hun (Prod.mk.inj (Option.some.inj hold)).2.symm)
  · rw [hafter, ← hsame]
    exact ⟨rfl, Deliveries.poll_unasked hbusy⟩

theorem stems_of_eq {j : Joins} {s : JoinStep} {name : String} {n : Nat} {w : Wait}
    (h : j.waits.get? name = some (n, w)) (other : ∀ polled, s ≠ .poll polled) : j.Stems s name n w :=
  .kept h fun _ => other name

theorem stems_step {j : Joins} {s : JoinStep} {name : String} {n : Nat} {w : Wait}
    (h : (j.step s).2.waits.get? name = some (n, w)) : j.Stems s name n w := by
  cases s with
  | create other => exact stems_of_eq h (by simp)
  | share counter other =>
      simp only [step] at h
      cases hcounter : j.counters.get? counter <;> rw [hcounter] at h <;> exact stems_of_eq h (by simp)
  | dropCounter counter =>
      simp only [step] at h
      split at h <;> exact stems_of_eq h (by simp)
  | add counter other =>
      simp only [step] at h
      cases hcounter : j.counters.get? counter with
      | none =>
          rw [hcounter] at h
          exact stems_of_eq h (by simp)
      | some m =>
          rw [hcounter] at h
          refine stems_of_eq ?_ (by simp)
          simp only [keepDelivery] at h
          split at h <;> exact h
  | acknowledge delivery =>
      simp only [step] at h
      cases hdelivery : j.deliveries.get? delivery <;> rw [hdelivery] at h <;> exact stems_of_eq h (by simp)
  | wait counter other lazy =>
      cases hcounter : j.counters.get? counter with
      | none =>
          simp only [step, hcounter] at h
          exact stems_of_eq h (by simp)
      | some m =>
          cases lazy with
          | true =>
              simp only [step, hcounter, if_true] at h
              rcases Table.get?_of_replaced (Or.inl rfl) h with ⟨rfl, hentry⟩ | ⟨-, hold⟩
              · obtain ⟨rfl, rfl⟩ := Prod.mk.inj hentry
                exact .made rfl hcounter
              · exact stems_of_eq hold (by simp)
          | false =>
              -- the wait is made and polled in one step
              have hstep : j.step (.wait counter other false) =
                  ({ j with waits := j.waits.insert other (m, .unasked) } : Joins).pollWait other := by
                simp [step, hcounter]
              have hnow := h
              rw [hstep] at hnow
              rcases stems_pollWait hnow with ⟨hold, hun⟩ | ⟨rfl, hentry, hbusy, rfl, hafter⟩
              · rcases Table.get?_of_replaced (Or.inl rfl) hold with ⟨rfl, hentry⟩ | ⟨-, hold⟩
                · exact absurd rfl (hun (Prod.mk.inj hentry).2)
                · exact stems_of_eq hold (by simp)
              · rw [Table.get?_insert_self] at hentry
                obtain ⟨rfl, -⟩ := Prod.mk.inj (Option.some.inj hentry)
                exact .polled (.atOnce hcounter)
  | poll polled =>
      rcases stems_pollWait h with ⟨hold, hun⟩ | ⟨rfl, hentry, hbusy, rfl, hafter⟩
      · exact .kept hold fun hw heq => hun hw (JoinStep.poll.inj heq).symm
      · exact .polled (.late hentry)
  | dropWait other =>
      simp only [step] at h
      split at h
      · rw [Table.get?_erase] at h
        split at h
        · exact absurd h (by simp)
        · exact stems_of_eq h (by simp)
      · exact stems_of_eq h (by simp)
  | unknown => exact stems_of_eq h (by simp)

/-! ## Scripts from the start -/

/-- What every step keeps. -/
structure Sound (j : Joins) : Prop where
  placed : j.Placed
  counted : ∀ n, (j.count n).inFlight = j.deliveries.values.count n
  calm : ∀ n, (j.count n).Calm
  /-- Places that are given out later are new. -/
  queued : ∀ name n place, j.waits.get? name = some (n, .queued place) → place < (j.count n).nextTicket

theorem sound_empty : Sound {} := by
  constructor
  case placed => intro name n h; exact absurd h (by simp [Table.get?, Table.empty, Table.find])
  case counted => intro n; rfl
  case calm => intro n _; rfl
  case queued => intro name n place h; exact absurd h (by simp [Table.get?, Table.empty, Table.find])

theorem Sound.step {j : Joins} (hj : j.Sound) (s : JoinStep) : (j.step s).2.Sound := by
  have hturn := turns_step hj.placed s
  constructor
  case placed => exact placed_step hj.placed s
  case counted => exact fun n => (hturn n).counted (hj.counted n)
  case calm => exact fun n => (hturn n).calm (hj.calm n)
  case queued =>
    intro name n place h
    cases stems_step h with
    | kept wait unpolled => exact Nat.lt_of_lt_of_le (hj.queued name n place wait) (hturn n).nextTicket_le
    | polled first =>
        obtain ⟨heq, -, hnext⟩ := first.queued h
        rw [Wait.queued.inj heq]
        exact hnext

theorem sound_after (steps : List JoinStep) : (after steps).Sound := by
  induction steps using List.reverseRecOn with
  | nil => exact sound_empty
  | append_singleton steps s ih =>
      rw [after_append_one]
      exact ih.step s

/-- A place in the queue of a count is there until the count is zero for the first time. -/
theorem waits_after {before : List JoinStep} {n : Nat} {place : Ticket}
    (hplace : place < ((after before).count n).nextTicket) (hin : place ∈ ((after before).count n).waiting)
    (more : List JoinStep) : place < ((after (before ++ more)).count n).nextTicket ∧
      (place ∈ ((after (before ++ more)).count n).waiting ↔
        ∀ pre, pre <+: more → ((after (before ++ pre)).count n).inFlight ≠ 0) := by
  induction more using List.reverseRecOn with
  | nil =>
      rw [List.append_nil]
      have hbusy := ((sound_after before).calm n).inFlight_ne_zero hin
      refine ⟨hplace, iff_of_true hin fun pre hpre => ?_⟩
      rw [List.prefix_nil.1 hpre, List.append_nil]
      exact hbusy
  | append_singleton more s ih =>
      obtain ⟨hlt, hiff⟩ := ih
      have hsound := sound_after (before ++ more)
      have hturn := turns_step hsound.placed s n
      rw [← List.append_assoc, after_append_one]
      refine ⟨Nat.lt_of_lt_of_le hlt hturn.nextTicket_le,
        (hturn.waits_iff (hsound.calm n) fun _ => hlt).trans ?_⟩
      -- the place is kept if it was there before the step and the count is not zero after it
      rw [hiff, ← after_append_one, List.append_assoc]
      constructor
      · rintro ⟨hold, hnow⟩ pre hpre
        rcases List.prefix_concat_iff.1 hpre with rfl | hshort
        · exact hnow
        · exact hold pre hshort
      · intro h
        exact ⟨fun pre hpre => h pre (hpre.trans (List.prefix_append more [s])), h _ List.prefix_rfl⟩

/-- A wait on the count `n` was polled for the first time by the step `s` after the steps `before`, took a place
    then, and is held since. -/
structure Asked (before : List JoinStep) (s : JoinStep) (more : List JoinStep) (name : String) (n : Nat)
    (place : Ticket) : Prop where
  first : (after before).FirstPoll name n s
  since : ∀ pre, pre <+: more → (after (before ++ s :: pre)).waits.get? name = some (n, .queued place)

theorem after_cons (before : List JoinStep) (s : JoinStep) (more : List JoinStep) :
    after (before ++ s :: more) = after ((before ++ [s]) ++ more) := by
  rw [List.append_assoc]
  rfl

/-- The count has been zero since the first poll of a wait. -/
def Drained (before : List JoinStep) (s : JoinStep) (more : List JoinStep) (n : Nat) : Prop :=
  ∃ pre, pre <+: more ∧ ((after (before ++ s :: pre)).count n).inFlight = 0

/-- A later poll finds a wait over exactly if the count was zero since the first one. -/
theorem Asked.result {before : List JoinStep} {s : JoinStep} {more : List JoinStep} {name : String} {n : Nat}
    {place : Ticket} (h : Asked before s more name n place) :
    (Drained before s more n ∧ ((after (before ++ s :: more)).step (.poll name)).1 = .ready none) ∨
      (¬ Drained before s more n ∧ ((after (before ++ s :: more)).step (.poll name)).1 = .pending) := by
  have hnow := h.since [] (List.nil_prefix)
  rw [after_append_one] at hnow
  obtain ⟨hplace, hin, hlt⟩ := h.first.queued hnow
  obtain rfl := Wait.queued.inj hplace
  rw [← after_append_one] at hin hlt
  have hwaits := (waits_after hlt hin more).2
  have hlater := h.since more List.prefix_rfl
  rw [← after_cons] at hwaits
  have hdrained : Drained before s more n ↔
      ((after before).count n).nextTicket ∉ ((after (before ++ s :: more)).count n).waiting := by
    rw [hwaits]
    simp only [Drained, after_cons, not_forall, not_not, exists_prop]
  rcases pollWait_cases hlater with ⟨left, hleft, hpoll⟩ | ⟨hleft, hpoll⟩
  · refine Or.inr ⟨fun hzero => ?_, congrArg Prod.fst hpoll⟩
    rw [(Deliveries.poll_queued_eq_none_iff _ _).2 (hdrained.1 hzero)] at hleft
    exact absurd hleft (by simp)
  · exact Or.inl ⟨hdrained.2 ((Deliveries.poll_queued_eq_none_iff _ _).1 hleft), congrArg Prod.fst hpoll⟩

/-- Every wait that has a place was polled for the first time, and is held since. -/
theorem exists_asked {steps : List JoinStep} {name : String} {n : Nat} {place : Ticket}
    (h : (after steps).waits.get? name = some (n, .queued place)) :
    ∃ before s more, steps = before ++ s :: more ∧ Asked before s more name n place := by
  induction steps using List.reverseRecOn with
  | nil => exact absurd h (by simp [after, run, Table.get?, Table.empty, Table.find])
  | append_singleton steps s ih =>
      have hnow := h
      rw [after_append_one] at hnow
      cases stems_step hnow with
      | kept wait unpolled =>
          obtain ⟨before, t, more, rfl, hasked⟩ := ih wait
          refine ⟨before, t, more ++ [s], by simp, hasked.first, fun pre hpre => ?_⟩
          -- it was held before this step, and it is held after it
          rcases List.prefix_concat_iff.1 hpre with rfl | hshort
          · simpa using h
          · exact hasked.since pre hshort
      | polled first =>
          refine ⟨steps, s, [], rfl, first, fun pre hpre => ?_⟩
          rw [List.prefix_nil.1 hpre]
          exact h

/-- Every wait that was not polled was made so, and no poll has named it since. -/
theorem exists_made {steps : List JoinStep} {name : String} {n : Nat}
    (h : (after steps).waits.get? name = some (n, .unasked)) :
    ∃ before counter more, steps = before ++ .wait counter name true :: more ∧
      (after before).counters.get? counter = some n ∧ .poll name ∉ more := by
  induction steps using List.reverseRecOn with
  | nil => exact absurd h (by simp [after, run, Table.get?, Table.empty, Table.find])
  | append_singleton steps s ih =>
      rw [after_append_one] at h
      cases stems_step h with
      | kept wait unpolled =>
          obtain ⟨before, counter, more, rfl, hcount, hnone⟩ := ih wait
          refine ⟨before, counter, more ++ [s], by simp, hcount, fun hin => ?_⟩
          rcases List.mem_append.1 hin with hold | hnew
          · exact hnone hold
          · exact unpolled rfl (List.mem_singleton.1 hnew).symm
      | made step count => exact ⟨steps, _, [], by rw [step], count, by simp⟩
      | polled first => exact absurd (first.queued h).1 (by simp)

/-! ## What counts say -/

/-- What holds after a script. -/
structure CountsDeliveries (steps : List JoinStep) : Prop where
  /-- A count is the number of the deliveries that are held of it. -/
  counted : ∀ n, ((after steps).count n).inFlight = (after steps).deliveries.values.count n
  /-- Whoever acknowledges a delivery finds the count above zero. -/
  positive : ∀ name n, (after steps).deliveries.get? name = some n → 0 < ((after steps).count n).inFlight
  /-- Nobody has a place in the queue of a count that is zero. -/
  unqueued : ∀ n, ((after steps).count n).inFlight = 0 → ((after steps).count n).waiting = []
  /-- A count in whose queue somebody has a place is held by a delivery. -/
  held : ∀ n, ((after steps).count n).waiting ≠ [] → ∃ name, (after steps).deliveries.get? name = some n
  /-- Nobody loses a place unless the count falls to zero. -/
  fired : ∀ s n place, place ∈ ((after steps).count n).waiting →
    (place ∈ ((after (steps ++ [s])).count n).waiting ↔ ((after (steps ++ [s])).count n).inFlight ≠ 0)
  /-- A wait that is held was polled at some time, or was made to be polled later and not polled since. -/
  asked : ∀ name n w, (after steps).waits.get? name = some (n, w) →
    (∃ before s more place, steps = before ++ s :: more ∧ Asked before s more name n place) ∨
      ∃ before counter more, steps = before ++ .wait counter name true :: more ∧
        (after before).counters.get? counter = some n ∧ .poll name ∉ more
  /-- The first poll of a wait finds it over exactly if the count is zero. -/
  first : ∀ s name n, (after steps).FirstPoll name n s →
    ((after steps).step s).1 = if ((after steps).count n).inFlight = 0 then .ready none else .pending
  /-- A later poll finds it over exactly if the count was zero at some time since. -/
  later : ∀ before s more name n place, steps = before ++ s :: more → Asked before s more name n place →
    (((after steps).step (.poll name)).1 = .ready none ↔ Drained before s more n) ∧
      (((after steps).step (.poll name)).1 = .pending ↔ ¬ Drained before s more n)

theorem mem_waiting_append_one {steps : List JoinStep} {n : Nat} {place : Ticket}
    (h : place ∈ ((after steps).count n).waiting) (s : JoinStep) :
    place ∈ ((after (steps ++ [s])).count n).waiting ↔ ((after (steps ++ [s])).count n).inFlight ≠ 0 := by
  have hsound := sound_after steps
  have hiff := (turns_step hsound.placed s n).waits_iff (hsound.calm n) fun hout => absurd h hout
  rw [after_append_one]
  exact hiff.trans (and_iff_right h)

theorem countsDeliveries (steps : List JoinStep) : CountsDeliveries steps := by
  have hsound := sound_after steps
  have hpositive : ∀ name n, (after steps).deliveries.get? name = some n →
      0 < ((after steps).count n).inFlight := by
    intro name n h
    rw [hsound.counted n]
    exact List.count_pos_iff.2 ((Table.mem_values_iff _ n).2 ⟨name, h⟩)
  constructor
  case counted => exact hsound.counted
  case positive => exact hpositive
  case unqueued => exact hsound.calm
  case held =>
    intro n hsome
    have hbusy : 0 < ((after steps).count n).inFlight := Nat.pos_of_ne_zero fun h => hsome (hsound.calm n h)
    rw [hsound.counted n] at hbusy
    exact (Table.mem_values_iff _ n).1 (List.count_pos_iff.1 hbusy)
  case fired => exact fun s n place h => mem_waiting_append_one h s
  case asked =>
    intro name n w h
    cases w with
    | unasked => exact Or.inr (exists_made h)
    | queued place =>
        obtain ⟨before, s, more, heq, hasked⟩ := exists_asked h
        exact Or.inl ⟨before, s, more, place, heq, hasked⟩
  case first => exact fun s name n h => h.result
  case later =>
    rintro before s more name n place rfl h
    rcases h.result with ⟨hzero, hresult⟩ | ⟨hzero, hresult⟩ <;> simp [hzero, hresult]

/-- Two waits see the count at different times. Both deliveries are acknowledged and a third is added before
    either is polled again. The wait that was first polled before that is over, the one first polled after it is
    not. -/
example :
    let j := after [.create "c", .share "c" "clone", .add "c" "a", .add "clone" "b", .wait "c" "early" false,
      .wait "c" "late" true, .acknowledge "a", .acknowledge "b", .add "c" "d"]
    (j.count 0).inFlight = 1 ∧ (j.step (.poll "early")).1 = .ready none ∧
      (j.step (.poll "late")).1 = .pending := by decide

end Script.Joins

end Callee
