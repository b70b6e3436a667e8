import Callee.Proofs.Completion
import Callee.Proofs.Ledger
import Mathlib.Algebra.BigOperators.Group.Finset.Piecewise

set_option autoImplicit false

/-! # What comes back with a finish

A peer that finishes a call may ask for the references of its return to be given back with that. A
finish gives back what the record of the call notes at the time, and the record notes the references
once the return has begun. So a finish that comes after that gives back all of them; one that comes
before finds none, and what is handed out later for its call does not come back, unless another finish
asks again.

`givesBack_after` would be wrong without the condition: after `earlyFinish` the call has gone with
its release asked for, and its reference stands. -/

namespace Callee.Connection

open Books

/-! ## Counting by calls -/

theorem count_map_pair (es : List ExportId) (call call' : CallId) (e : ExportId) :
    (es.map fun e => (call, e)).count (call', e) = if call' = call then es.count e else 0 := by
  induction es with
  | nil => simp
  | cons x rest ih =>
      simp only [List.map_cons, List.count_cons, ih, beq_iff_eq, Prod.mk.injEq]
      by_cases h : call' = call
      · simp [h]
      · simp [h, Ne.symm h]

/-- What is counted of a reference is what is counted of it for each call. -/
theorem sum_count_pair (l : List (CallId × ExportId)) {n : CallId} (h : ∀ p ∈ l, p.1 < n)
    (e : ExportId) :
    ∑ call ∈ Finset.range n, l.count (call, e) = (l.map Prod.snd).count e := by
  induction l with
  | nil => simp
  | cons p rest ih =>
      have hp : p.1 < n := h p (List.mem_cons_self ..)
      have hrest := ih fun q hq => h q (List.mem_cons_of_mem _ hq)
      obtain ⟨call, e'⟩ := p
      simp only [List.map_cons, List.count_cons, Finset.sum_add_distrib, hrest, beq_iff_eq,
        Prod.mk.injEq]
      by_cases he : e' = e
      · simp [he, hp]
      · simp [he]

/-! ## What the ledger says of one call -/

/-- The calls that an action finishes with the release of their references. -/
def asksBack (c : Connection) : Action → List CallId
  | .finish id true =>
      match c.answers.get? id with
      | some a => [a.call]
      | none => []
  | _ => []

/-- Those among them whose return has begun. -/
def asksBackBegun (c : Connection) : Action → List CallId
  | .finish id true =>
      match c.answers.get? id with
      | some a => if a.state.resultsReady then [a.call] else []
      | none => []
  | _ => []

/-- How many of the references handed out for a call over a run have not come back. -/
def outstanding (c : Connection) (actions : List Action) (call : CallId) (e : ExportId) : Nat :=
  (along handsOut c actions).count (call, e) - (along takesBack c actions).count (call, e)

theorem mem_asksBackBegun_iff (c : Connection) (action : Action) (call : CallId) :
    call ∈ c.asksBackBegun action ↔ ∃ id a, action = .finish id true ∧
      c.answers.get? id = some a ∧ a.state.resultsReady = true ∧ a.call = call := by
  constructor
  · intro h
    unfold asksBackBegun at h
    split at h
    · next id =>
        split at h
        · next a ha =>
            split at h
            · next hready => exact ⟨id, a, rfl, ha, hready, (List.mem_singleton.1 h).symm⟩
            · exact absurd h (by simp)
        · exact absurd h (by simp)
    · exact absurd h (by simp)
  · rintro ⟨id, a, rfl, ha, hready, rfl⟩
    simp [asksBackBegun, ha, hready]

/-! ## One step -/

/-- A step moves references of one record at most, and what the record notes changes by what is
    moved. -/
inductive Moves (c : Connection) (action : Action) : Prop
  | still (answers : (c.transfer action).answers = c.answers) (out : c.handsOut action = [])
      (back : c.takesBack action = [])
  | record {id : AnswerId} {a a' : Answer} {es fs : List ExportId} (found : c.answers.get? id = some a)
      (call : a'.call = a.call)
      (answers : (c.transfer action).answers = c.answers.insert id a' ∨
        (c.transfer action).answers = c.answers.erase id)
      (out : c.handsOut action = es.map fun e => (a.call, e))
      (back : c.takesBack action = fs.map fun e => (a.call, e))
      (balance : ∀ e, es.count e + a.exports.count e = fs.count e + a'.exports.count e)
      (spent : a.message = none → es = [])

theorem moves_begin {c : Connection} (hc : Reachable c) {action : Action} {t : TaskId} {h : Handle}
    {result : Except Error Unit} (owes : c.books.taskOwes t = some (h, .building))
    (htransfer : c.transfer action = (c.beginReturn h.id result).2)
    (hout : c.handsOut action =
      ((c.beginReturn h.id result).1.elim [] BegunReturn.hosted).map fun e => (h.call, e))
    (hback : c.takesBack action = []) : c.Moves action := by
  have hold : c.books.Holds (.task t) h .building := owes
  obtain ⟨a, ha, hcall, -⟩ := hc.custody.found_at hold
  have horder := hc.reckoning.answers h.id a ha
  obtain ⟨begun, c', a', heq, hbegun⟩ := c.beginReturn_begun hc.reckoning.exports ha
    (fun e he => (horder.unbegun e he).1) result
  rw [heq] at htransfer hout
  rw [← hcall] at hout
  have hnone : c.takesBack action = ([] : List ExportId).map fun e => (a.call, e) := hback
  refine .record ha hbegun.call (Or.inl (htransfer ▸ hbegun.answers)) hout hnone ?_ ?_
  · intro e
    rcases hbegun.exports with ⟨-, hsame, hnone, -⟩ | ⟨hopen, -, hhosted, -⟩
    · show begun.hosted.count e + a.exports.count e = [].count e + a'.exports.count e
      rw [hnone, hsame]
    · show begun.hosted.count e + a.exports.count e = [].count e + a'.exports.count e
      rw [hhosted, horder.exports_eq_nil hopen]
      exact Nat.add_comm ..
  · intro hmsg
    rcases hbegun.exports with ⟨-, -, hnone, -⟩ | ⟨hopen, -⟩
    · exact hnone
    · exact absurd hmsg hopen

theorem moves_finish (c : Connection) (id : AnswerId) (releaseCaps : Bool) :
    c.Moves (.finish id releaseCaps) := by
  cases ha : c.answers.get? id with
  | none =>
      have hanswers : (c.finish id releaseCaps).answers = c.answers := by
        rw [c.finish_of_none releaseCaps ha]
        rfl
      exact .still hanswers rfl (by simp [takesBack, ha])
  | some a =>
      obtain ⟨hs, ts, heq⟩ := c.finish_shape releaseCaps ha
      have hout : c.handsOut (.finish id releaseCaps) =
          ([] : List ExportId).map fun e => (a.call, e) := rfl
      have hback : c.takesBack (.finish id releaseCaps) =
          (a.givenBack releaseCaps).map fun e => (a.call, e) := by simp [takesBack, ha]
      have hanswers : (c.finish id releaseCaps).answers =
          c.answers.insert id (a.markFinishReceived releaseCaps) ∨
            (c.finish id releaseCaps).answers = c.answers.erase id := by
        rw [heq]
        exact answers_putAnswer _ id _
      have hcall : (a.markFinishReceived releaseCaps).call = a.call := rfl
      refine .record ha hcall hanswers hout hback ?_ fun _ => rfl
      intro e
      rw [count_givenBack]
      exact Nat.zero_add _

theorem moves_step {c : Connection} (hc : Reachable c) (action : Action) : c.Moves action := by
  cases c.opening action with
  | nothing transfer out back => exact .still (by rw [transfer]) out back
  | begins owes transfer out back => exact moves_begin hc owes transfer out back
  | finishes isFinish =>
      subst isFinish
      exact c.moves_finish _ _

namespace Moves

variable {c : Connection} {action : Action}

/-- What a step moves belongs to a call that is in the table. -/
theorem count_of_new (h : c.Moves action) {call : CallId}
    (hcall : ∀ id a, c.answers.get? id = some a → a.call ≠ call) (e : ExportId) :
    (c.handsOut action).count (call, e) = 0 ∧ (c.takesBack action).count (call, e) = 0 := by
  cases h with
  | still answers out back => simp [out, back]
  | record found call' answers out back balance spent =>
      have hne := Ne.symm (hcall _ _ found)
      rw [out, back, count_map_pair, count_map_pair, if_neg hne, if_neg hne]
      exact ⟨rfl, rfl⟩

/-- What is moved for a record that no longer waits for its return, and that notes nothing. -/
theorem count_of_spent (h : c.Moves action) (hc : Reachable c) {id : AnswerId} {a : Answer}
    (ha : c.answers.get? id = some a) (hmsg : a.message = none) (hexports : a.exports = [])
    (e : ExportId) :
    (c.handsOut action).count (a.call, e) = 0 ∧ (c.takesBack action).count (a.call, e) = 0 := by
  cases h with
  | still answers out back => simp [out, back]
  | @record id₁ a₁ a' es fs found call answers out back balance spent =>
      rw [out, back, count_map_pair, count_map_pair]
      by_cases hcall : a.call = a₁.call
      · obtain ⟨-, rfl⟩ := hc.record_unique found ha hcall
        -- nothing is handed out, so by the balance nothing comes back
        have hbalance := balance e
        rw [spent hmsg, hexports] at hbalance
        rw [if_pos rfl, if_pos rfl, spent hmsg]
        exact ⟨rfl, (Nat.add_eq_zero_iff.1 hbalance.symm).1⟩
      · rw [if_neg hcall, if_neg hcall]
        exact ⟨rfl, rfl⟩

/-- The balance of a step for a record that stays. -/
theorem balance_of_record (h : c.Moves action) (hc : Reachable c) {id : AnswerId} {b : Answer}
    (hb : (c.transfer action).answers.get? id = some b) :
    ∃ a, c.answers.get? id = some a ∧ b.call = a.call ∧ ∀ e,
      (c.handsOut action).count (b.call, e) + a.exports.count e =
        (c.takesBack action).count (b.call, e) + b.exports.count e := by
  cases h with
  | still answers out back =>
      rw [answers] at hb
      exact ⟨b, hb, rfl, fun e => by rw [out, back]⟩
  | @record id₁ a₁ a' es fs found call answers out back balance spent =>
      simp only [out, back, count_map_pair]
      rcases Table.get?_of_replaced answers hb with ⟨rfl, rfl⟩ | ⟨hid, hget⟩
      · refine ⟨a₁, found, call, fun e => ?_⟩
        rw [if_pos call, if_pos call]
        exact balance e
      · -- a record under another id belongs to another call
        have hne : b.call ≠ a₁.call := fun heq => hid (hc.record_unique found hget heq).1
        exact ⟨b, hget, rfl, fun e => by rw [if_neg hne, if_neg hne]⟩

end Moves

/-- A record of a new call notes nothing. -/
theorem exports_of_new {c : Connection} (hc : Reachable c) (action : Action) {id : AnswerId}
    {b : Answer} (hb : (c.step action).2.answers.get? id = some b) (hnew : c.nextCall ≤ b.call) :
    b.exports = [] := by
  have hst : (c.step action).2.books.status id = some (b.call, b.state) := status_of_get? hb
  rcases (hc.lifeStep action).before hc.custody hst with ⟨-, hstate⟩ | ⟨st, hst', -⟩
  · cases hexports : b.exports with
    | nil => rfl
    | cons e rest =>
        have hready := ((Reachable.step action hc).reckoning.answers id b hb).ready (by simp [hexports])
        rw [hstate] at hready
        exact absurd hready (by simp)
  · exact absurd (hc.custody.call_lt hst') (Nat.not_lt_of_le hnew)

/-- What a step makes of the records: one that was there notes what the ledger says, and one of a new call
    notes nothing. -/
theorem record_step {c : Connection} (hc : Reachable c) (action : Action) {id : AnswerId} {b : Answer}
    (hb : (c.step action).2.answers.get? id = some b) :
    (∃ a, c.answers.get? id = some a ∧ Ages a b ∧ ∀ e,
      (c.handsOut action).count (a.call, e) + a.exports.count e =
        (c.takesBack action).count (a.call, e) + b.exports.count e) ∨
      c.nextCall ≤ b.call ∧ b.exports = [] := by
  by_cases hnew : c.nextCall ≤ b.call
  · exact Or.inr ⟨hnew, exports_of_new hc action hb hnew⟩
  rcases (c.ages_step action).2 id b hb with ⟨a, ha, hages⟩ | hlate
  · rcases (keeps_rule.step c action).2 id b hb with ⟨b₀, hb₀, hkeeps⟩ | hlate
    · obtain ⟨a₀, ha₀, hcall, hbalance⟩ := (moves_step hc action).balance_of_record hc hb₀
      obtain rfl := Option.some.inj (ha₀.symm.trans ha)
      refine Or.inl ⟨a₀, ha, hages, fun e => ?_⟩
      rw [← hcall, hkeeps.exports]
      exact hbalance e
    · exact absurd (Nat.le_trans (c.ages_transfer action).1 hlate) hnew
  · exact absurd hlate hnew

/-- What is given back is asked for, by a finish that comes after the beginning of the return. -/
theorem count_takesBack_of_not_mem {c : Connection} (hc : Reachable c) {action : Action}
    {call : CallId} (hask : call ∉ c.asksBackBegun action) (e : ExportId) :
    (c.takesBack action).count (call, e) = 0 := by
  rw [List.count_eq_zero]
  intro hin
  cases action with
  | finish id releaseCaps =>
      simp only [takesBack] at hin
      split at hin
      · next a ha =>
          obtain ⟨e', he', heq⟩ := List.mem_map.1 hin
          obtain ⟨rfl, rfl⟩ := Prod.mk.inj heq
          cases releaseCaps with
          | false => exact absurd he' (by simp [Answer.givenBack])
          | true =>
              have hready := (hc.reckoning.answers id a ha).ready (List.ne_nil_of_mem he')
              exact hask ((c.mem_asksBackBegun_iff _ _).2 ⟨id, a, rfl, ha, hready, rfl⟩)
      · exact absurd hin (by simp)
  | _ => exact absurd hin (by simp [takesBack])

/-! ## Whole runs -/

/-- How the ledger of a run stands with the records at its end. -/
structure Accounted (c : Connection) (out back : List (CallId × ExportId)) (asked : List CallId) :
    Prop where
  fresh : ∀ call, c.nextCall ≤ call → call ∉ asked ∧
    ∀ e, out.count (call, e) = 0 ∧ back.count (call, e) = 0
  /-- A record notes what was handed out for its call and has not come back. -/
  standing : ∀ id a e, c.answers.get? id = some a →
    out.count (a.call, e) = back.count (a.call, e) + a.exports.count e
  settled : ∀ call ∈ asked, ∀ e, out.count (call, e) = back.count (call, e)
  spent : ∀ id a, c.answers.get? id = some a → a.call ∈ asked → a.message = none
  kept : ∀ call, call ∉ asked → ∀ e, back.count (call, e) = 0

namespace Accounted

variable {c : Connection} {out back : List (CallId × ExportId)} {asked : List CallId}

/-- The record of a call that was asked for notes nothing. -/
theorem exports_eq_nil (h : c.Accounted out back asked) {id : AnswerId} {a : Answer}
    (ha : c.answers.get? id = some a) (hask : a.call ∈ asked) : a.exports = [] := by
  refine List.eq_nil_iff_forall_not_mem.2 fun e he => ?_
  have hpos := List.count_pos_iff.2 he
  have hstanding := h.standing id a e ha
  rw [h.settled a.call hask e] at hstanding
  omega

theorem count_le (h : c.Accounted out back asked) (call : CallId) (e : ExportId) :
    back.count (call, e) ≤ out.count (call, e) := by
  by_cases hask : call ∈ asked
  · exact Nat.le_of_eq (h.settled call hask e).symm
  · rw [h.kept call hask e]
    exact Nat.zero_le _

theorem call_lt (h : c.Accounted out back asked) :
    (∀ p ∈ out, p.1 < c.nextCall) ∧ ∀ p ∈ back, p.1 < c.nextCall := by
  have hzero : ∀ p : CallId × ExportId, ¬ p.1 < c.nextCall → out.count p = 0 ∧ back.count p = 0 :=
    fun p hp => (h.fresh p.1 (Nat.le_of_not_lt hp)).2 p.2
  refine ⟨fun p hin => ?_, fun p hin => ?_⟩
  · by_contra hp
    exact List.count_eq_zero.1 (hzero p hp).1 hin
  · by_contra hp
    exact List.count_eq_zero.1 (hzero p hp).2 hin

/-- The calls that have been asked for go on as they are. -/
theorem count_of_asked (h : c.Accounted out back asked) (hc : Reachable c) (action : Action)
    {call : CallId} (hask : call ∈ asked) (e : ExportId) :
    (c.handsOut action).count (call, e) = 0 ∧ (c.takesBack action).count (call, e) = 0 := by
  have hmoves := moves_step hc action
  by_cases hrec : ∃ id a, c.answers.get? id = some a ∧ a.call = call
  · obtain ⟨id, a, ha, rfl⟩ := hrec
    exact hmoves.count_of_spent hc ha (h.spent id a ha hask) (h.exports_eq_nil ha hask) e
  · exact hmoves.count_of_new (fun id a ha hcall => hrec ⟨id, a, ha, hcall⟩) e

theorem fresh_step (h : c.Accounted out back asked) (hc : Reachable c) (action : Action)
    {call : CallId} (hnew : (c.step action).2.nextCall ≤ call) :
    call ∉ asked ++ c.asksBackBegun action ∧ ∀ e,
      (out ++ c.handsOut action).count (call, e) = 0 ∧
        (back ++ c.takesBack action).count (call, e) = 0 := by
  have hold : c.nextCall ≤ call := Nat.le_trans (c.ages_step action).1 hnew
  obtain ⟨hask, hzero⟩ := h.fresh call hold
  have hnone : ∀ id a, c.answers.get? id = some a → a.call ≠ call := fun id a ha =>
    Nat.ne_of_lt (Nat.lt_of_lt_of_le (hc.call_lt ha) hold)
  refine ⟨fun hin => ?_, fun e => ?_⟩
  · rcases List.mem_append.1 hin with hin | hin
    · exact hask hin
    · obtain ⟨id, a, -, ha, -, hcall⟩ := (c.mem_asksBackBegun_iff _ _).1 hin
      exact hnone id a ha hcall
  · rw [List.count_append, List.count_append, (hzero e).1, (hzero e).2, Nat.zero_add, Nat.zero_add]
    exact (moves_step hc action).count_of_new hnone e

theorem standing_step (h : c.Accounted out back asked) (hc : Reachable c) (action : Action)
    {id : AnswerId} {b : Answer} (hb : (c.step action).2.answers.get? id = some b) (e : ExportId) :
    (out ++ c.handsOut action).count (b.call, e) =
      (back ++ c.takesBack action).count (b.call, e) + b.exports.count e := by
  rw [List.count_append, List.count_append]
  rcases record_step hc action hb with ⟨a, ha, hages, hbalance⟩ | ⟨hnew, hnone⟩
  · have hbefore := h.standing id a e ha
    have hmoved := hbalance e
    rw [hages.call]
    omega
  · have hmoved := (moves_step hc action).count_of_new (fun id a ha =>
      Nat.ne_of_lt (Nat.lt_of_lt_of_le (hc.call_lt ha) hnew)) e
    obtain ⟨hout, hback⟩ := (h.fresh b.call hnew).2 e
    rw [hout, hback, hmoved.1, hmoved.2, hnone]
    rfl

theorem settled_step (h : c.Accounted out back asked) (hc : Reachable c) (action : Action)
    {call : CallId} (hask : call ∈ asked ++ c.asksBackBegun action) (e : ExportId) :
    (out ++ c.handsOut action).count (call, e) = (back ++ c.takesBack action).count (call, e) := by
  rw [List.count_append, List.count_append]
  by_cases hold : call ∈ asked
  · have hmoved := h.count_of_asked hc action hold e
    rw [h.settled call hold e, hmoved.1, hmoved.2]
  · -- the finish gives back all that the record notes
    have hnow := (List.mem_append.1 hask).resolve_left hold
    obtain ⟨id, a, rfl, ha, -, rfl⟩ := (c.mem_asksBackBegun_iff _ _).1 hnow
    have hback : c.takesBack (.finish id true) = a.exports.map fun e => (a.call, e) := by
      simp [takesBack, ha, Answer.givenBack]
    rw [hback, count_map_pair, if_pos rfl, h.standing id a e ha]
    rfl

theorem spent_step (h : c.Accounted out back asked) (hc : Reachable c) (action : Action)
    {id : AnswerId} {b : Answer} (hb : (c.step action).2.answers.get? id = some b)
    (hask : b.call ∈ asked ++ c.asksBackBegun action) : b.message = none := by
  rcases record_step hc action hb with ⟨a, ha, hages, -⟩ | ⟨hnew, -⟩
  · refine hages.message ?_
    rw [hages.call] at hask
    rcases List.mem_append.1 hask with hold | hnow
    · exact h.spent id a ha hold
    · obtain ⟨id', a', -, ha', hready, hcall⟩ := (c.mem_asksBackBegun_iff _ _).1 hnow
      obtain ⟨-, rfl⟩ := hc.record_unique ha ha' hcall
      exact (hc.reckoning.answers id a' ha).message_eq_none hready
  · rcases List.mem_append.1 hask with hold | hnow
    · exact absurd hold (h.fresh b.call hnew).1
    · obtain ⟨id', a', -, ha', -, hcall⟩ := (c.mem_asksBackBegun_iff _ _).1 hnow
      exact absurd (hc.call_lt ha') (Nat.not_lt_of_le (hcall ▸ hnew))

theorem kept_step (h : c.Accounted out back asked) (hc : Reachable c) (action : Action)
    {call : CallId} (hask : call ∉ asked ++ c.asksBackBegun action) (e : ExportId) :
    (back ++ c.takesBack action).count (call, e) = 0 := by
  obtain ⟨hold, hnow⟩ := not_or.1 (List.mem_append.not.1 hask)
  rw [List.count_append, h.kept call hold e, count_takesBack_of_not_mem hc hnow e]

/-- What one step carries on. -/
theorem step (h : c.Accounted out back asked) (hc : Reachable c) (action : Action) :
    (c.step action).2.Accounted (out ++ c.handsOut action) (back ++ c.takesBack action)
      (asked ++ c.asksBackBegun action) where
  fresh _ hnew := h.fresh_step hc action hnew
  standing _ _ e hb := h.standing_step hc action hb e
  settled _ hask e := h.settled_step hc action hask e
  spent _ _ hb hask := h.spent_step hc action hb hask
  kept _ hask e := h.kept_step hc action hask e

end Accounted

/-- The ledger of every run stands with the records at its end. -/
theorem accounted_after (options : Options) (actions : List Action) :
    ((initial options).after actions).Accounted (along handsOut (initial options) actions)
      (along takesBack (initial options) actions) (along asksBackBegun (initial options) actions) := by
  -- the ledger grows at the end of a run
  induction actions using List.reverseRecOn with
  | nil =>
      have hempty : ∀ id a, (initial options).answers.get? id ≠ some a := fun id a h => nomatch h
      refine ⟨fun call _ => ⟨by simp [along], fun e => ⟨rfl, rfl⟩⟩, fun id a _ h => ?_,
        fun _ h => by simp [along] at h, fun id a h => ?_, fun _ _ e => rfl⟩
      · exact absurd h (hempty id a)
      · exact absurd h (hempty id a)
  | append_singleton actions action ih =>
      have hreach := (Reachable.initial options).after actions
      have hlast : ∀ {β : Type} (f : Connection → Action → List β),
          along f (initial options) (actions ++ [action]) =
            along f (initial options) actions ++ f ((initial options).after actions) action := by
        intro β f
        rw [along_append]
        exact congrArg _ (List.append_nil _)
      rw [hlast, hlast, hlast, after_append]
      exact ih.step hreach action

/-- What is counted of an export, call by call. -/
theorem refs_eq_sum_outstanding (options : Options) (actions : List Action)
    (hup : ((initial options).after actions).link = .up) (e : ExportId) :
    ((initial options).after actions).exports.refs e =
      ∑ call ∈ Finset.range ((initial options).after actions).nextCall,
        outstanding (initial options) actions call e := by
  have hacc := accounted_after options actions
  have hledger := refs_after (Reachable.initial options) actions e hup
  have hempty : (initial options).exports.refs e = 0 := rfl
  have hout := sum_count_pair _ hacc.call_lt.1 e
  have hback := sum_count_pair _ hacc.call_lt.2 e
  have hsplit : ∀ call ∈ Finset.range ((initial options).after actions).nextCall,
      outstanding (initial options) actions call e +
        (along takesBack (initial options) actions).count (call, e) =
      (along handsOut (initial options) actions).count (call, e) :=
    fun call _ => Nat.sub_add_cancel (hacc.count_le call e)
  rw [← Finset.sum_congr rfl hsplit, Finset.sum_add_distrib, hback] at hout
  omega

/-! ## All runs -/

/-- What comes back over a run. -/
structure GivesBack (options : Options) (actions : List Action) : Prop where
  /-- While the connection is up, an export is counted once for each of its references that has not come
      back. -/
  refs : ((initial options).after actions).link = .up → ∀ e,
    ((initial options).after actions).exports.refs e =
      ∑ call ∈ Finset.range ((initial options).after actions).nextCall,
        outstanding (initial options) actions call e
  /-- As long as the record of a call stands, it notes them. -/
  noted : ∀ id a e, ((initial options).after actions).answers.get? id = some a →
    outstanding (initial options) actions a.call e = a.exports.count e
  /-- All references of a call have come back exactly if a finish asked for them after its return had
      begun, or it was handed none. -/
  settled : ∀ call, (∀ e, outstanding (initial options) actions call e = 0) ↔
    call ∈ along asksBackBegun (initial options) actions ∨
      ∀ e, (along handsOut (initial options) actions).count (call, e) = 0
  /-- Without such a finish none has. -/
  kept : ∀ call, call ∉ along asksBackBegun (initial options) actions → ∀ e,
    outstanding (initial options) actions call e =
      (along handsOut (initial options) actions).count (call, e)
  /-- It may come at any time after the beginning of the return. -/
  anyTime : ∀ before id more a, actions = before ++ .finish id true :: more →
    ((initial options).after before).answers.get? id = some a → a.state.resultsReady = true →
    ∀ e, outstanding (initial options) actions a.call e = 0

/-- References come back, over every run, with a finish that comes after the beginning of the return. -/
theorem givesBack_after (options : Options) (actions : List Action) :
    GivesBack options actions := by
  have hacc := accounted_after options actions
  have hasked : ∀ call ∈ along asksBackBegun (initial options) actions, ∀ e,
      outstanding (initial options) actions call e = 0 := fun call hask e =>
    Nat.sub_eq_zero_of_le (Nat.le_of_eq (hacc.settled call hask e))
  have hkept : ∀ call, call ∉ along asksBackBegun (initial options) actions → ∀ e,
      outstanding (initial options) actions call e =
        (along handsOut (initial options) actions).count (call, e) := by
    intro call hask e
    rw [outstanding, hacc.kept call hask e]
    rfl
  refine ⟨refs_eq_sum_outstanding options actions, fun id a e ha => ?_, fun call => ?_, hkept, ?_⟩
  · rw [outstanding, hacc.standing id a e ha]
    exact Nat.add_sub_cancel_left ..
  · by_cases hask : call ∈ along asksBackBegun (initial options) actions
    · exact iff_of_true (hasked call hask) (Or.inl hask)
    · simp only [hask, false_or, hkept call hask]
  · rintro before id more a rfl ha hready e
    refine hasked a.call ((mem_along_iff ..).2 ⟨before, _, more, rfl, ?_⟩) e
    exact (mem_asksBackBegun_iff ..).2 ⟨id, a, rfl, ha, hready, rfl⟩

/-- Runs in which one call returns one capability, and the finish asks for it to be given back: after the
    return was sent, and before it has begun. -/
def lateFinish : List Action :=
  [.newAnswer 7 "call", .setBootstrap ⟨7, 0⟩ ⟨"object", 5⟩, .sendReturn ⟨7, 0⟩ (.ok ()) none, .poll 0,
    .finish 7 true]

def earlyFinish : List Action :=
  [.newAnswer 7 "call", .setBootstrap ⟨7, 0⟩ ⟨"object", 5⟩, .finish 7 true,
    .sendReturn ⟨7, 0⟩ (.ok ()) none, .poll 0]

theorem givesBack_after_lateFinish :
    ((initial {}).after lateFinish).link = .up ∧ 0 ∈ along asksBackBegun (initial {}) lateFinish ∧
      (along handsOut (initial {}) lateFinish).count (0, 0) = 1 ∧
      ((initial {}).after lateFinish).exports.refs 0 = 0 ∧ GivesBack {} lateFinish :=
  ⟨by decide +kernel, by decide +kernel, by decide +kernel, by decide +kernel,
    givesBack_after {} lateFinish⟩

/-- A call that has gone, and whose references were asked for, may have left some behind. -/
theorem outstanding_after_earlyFinish :
    ¬ ∀ options actions call, ((initial options).after actions).link = .up →
      call ∈ along asksBack (initial options) actions →
      ((initial options).after actions).Forgets call →
      ∀ e, outstanding (initial options) actions call e = 0 := by
  intro h
  have hgone : ((initial {}).after earlyFinish).answers.entries = [] := by decide +kernel
  have hforgets : ((initial {}).after earlyFinish).Forgets 0 := by
    intro id a ha
    have hin := (((initial {}).after earlyFinish).answers.mem_entries_iff id a).2 ha
    rw [hgone] at hin
    exact absurd hin (by simp)
  have hzero := h {} earlyFinish 0 (by decide +kernel) (by decide +kernel) hforgets 0
  have hone : outstanding (initial {}) earlyFinish 0 0 = 1 := by decide +kernel
  exact absurd (hone.symm.trans hzero) (by simp)

end Callee.Connection
