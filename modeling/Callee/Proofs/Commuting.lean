import Callee.Proofs.HeldReferences
import Callee.Proofs.Withdrawing
import Mathlib.Data.List.Sort

set_option autoImplicit false

/-! # Operations on different answers

The peer's finish, the end of a return, giving up on a call and installing a receiver each work on one record
and through it on the exports, the cancellations and the history: `Effect` says what one of them does, given
the record (`Works`). Two that work on different records can be done in either order (`Works.exchange`). The
one thing that they share is the table of exports, where both may give back references to one export. Which
of the two takes it away depends on the order, what is left does not: together they give back no more than is
counted, and a table is known from its counts (`Exports.releaseComm_of_counted`). -/

namespace Callee

/-! ## Giving back in either order -/

/-- A table of slots is known from what stands under each id, and from its length. -/
theorem Slots.eq_of_get? {α : Type} {t t' : Slots α} (ht : t.WF) (ht' : t'.WF)
    (length : t.slots.length = t'.slots.length) (get? : ∀ id, t.get? id = t'.get? id) : t = t' := by
  have hslots : t.slots = t'.slots := by
    refine List.ext_getElem length fun i hi hi' => ?_
    have hget := get? i
    simpa [Slots.get?, List.getElem?_eq_getElem hi, List.getElem?_eq_getElem hi'] using hget
  have hfree : t.free = t'.free := by
    refine ht.ascending.eq_of_mem_iff ht'.ascending fun id => ?_
    rw [ht.mem_free, ht'.mem_free, length, get?]
  obtain ⟨slots, free⟩ := t
  exact congrArg₂ Slots.mk hslots hfree

namespace Exports

/-- Two tables of exports do not differ but in the order of their index. -/
structure Same (x y : Exports) : Prop where
  table : x.table = y.table
  index : ∀ k, x.byIdentity.get? k = y.byIdentity.get? k

theorem Same.refl (x : Exports) : x.Same x := ⟨rfl, fun _ => rfl⟩

theorem same_of_table {x y : Exports} (hx : x.WF) (hy : y.WF) (table : x.table = y.table) : x.Same y where
  table := table
  index k := by
    refine Option.ext fun id => ?_
    rw [hx.index, hy.index, table]

/-- What one finds of a table when references were given back in two goes, in either order. -/
structure ReleaseComm (x : Exports) (ids ids' : List ExportId) : Prop where
  same : ((x.release ids).exports.release ids').exports.Same ((x.release ids').exports.release ids).exports
  errors : ((x.release ids').exports.release ids).errors = (x.release ids).errors
  errors' : ((x.release ids).exports.release ids').errors = (x.release ids').errors
  released : ((x.release ids).released ++ ((x.release ids).exports.release ids').released).Perm
    ((x.release ids').released ++ ((x.release ids').exports.release ids).released)

theorem releaseComm_of_empty (ids ids' : List ExportId) : ({} : Exports).ReleaseComm ids ids' where
  same := by
    simp only [release_of_empty]
    exact .refl _
  errors := by simp only [release_of_empty]
  errors' := by simp only [release_of_empty]
  released := by
    simp only [release_of_empty]
    exact .refl _

/-- What is held after two goes was held before, but for what was released on the way. -/
theorem held_release_release (x : Exports) (ids ids' : List ExportId) :
    (((x.release ids).exports.release ids').exports.held ++
      ((x.release ids).released ++ ((x.release ids).exports.release ids').released)).Perm x.held := by
  have hfirst := x.held_release ids
  have hsecond := (x.release ids).exports.held_release ids'
  refine (List.perm_append_comm.append_left _).trans ?_
  rw [← List.append_assoc]
  exact (hsecond.append_right _).trans hfirst

/-- References that are all there can be given back in either order. -/
theorem releaseComm_of_counted {x : Exports} (hx : x.WF) {ids ids' : List ExportId}
    (hle : ∀ e, ids.count e + ids'.count e ≤ x.refs e) : x.ReleaseComm ids ids' := by
  have hids : ∀ e, ids.count e ≤ x.refs e := fun e => Nat.le_trans (Nat.le_add_right _ _) (hle e)
  have hids' : ∀ e, ids'.count e ≤ x.refs e := fun e => Nat.le_trans (Nat.le_add_left _ _) (hle e)
  obtain ⟨hfirst, hvalid⟩ := release_spec hx hids
  obtain ⟨hfirst', hvalid'⟩ := release_spec hx hids'
  have hleft : ∀ e, ids'.count e ≤ (x.release ids).exports.refs e := fun e => by
    rw [hfirst.refs]
    exact Nat.le_sub_of_add_le' (hle e)
  have hleft' : ∀ e, ids.count e ≤ (x.release ids').exports.refs e := fun e => by
    rw [hfirst'.refs]
    exact Nat.le_sub_of_add_le (hle e)
  obtain ⟨hsecond, hnext⟩ := release_spec hfirst.wf hleft
  obtain ⟨hsecond', hnext'⟩ := release_spec hfirst'.wf hleft'
  have hboth := hfirst.trans hsecond
  have hboth' := hfirst'.trans hsecond'
  have htable : ((x.release ids).exports.release ids').exports.table =
      ((x.release ids').exports.release ids).exports.table := by
    refine Slots.eq_of_get? hboth.wf.slots hboth'.wf.slots ?_ fun id => ?_
    · simp only [length_release]
    · rw [hboth.get?, hboth'.get?, List.count_append, List.count_append, Nat.add_comm]
  refine ⟨same_of_table hboth.wf hboth'.wf htable, ?_, ?_, ?_⟩
  · simp [Release.errors, hvalid, hnext']
  · simp [Release.errors, hvalid', hnext]
  · have hheld := x.held_release_release ids ids'
    have hheld' := x.held_release_release ids' ids
    have hsame : ((x.release ids).exports.release ids').exports.held =
        ((x.release ids').exports.release ids).exports.held := by
      unfold held
      rw [htable]
    rw [hsame] at hheld
    exact (List.perm_append_left_iff _).1 (hheld.trans hheld'.symm)

end Exports

/-! ## What an operation does -/

/-- What an operation does through the record under one id. -/
structure Effect where
  /-- What stands in the table afterwards. -/
  record : Option Answer
  /-- The references that the peer gives back. -/
  back : List ExportId := []
  /-- The tokens that are told to cancel. -/
  tokens : List Token := []
  /-- What is called out to, the last first, given what there is to report about the references. -/
  events : List Error → List Event := fun _ => []

namespace Connection

/-- What a connection consists of besides its records, its exports, its cancellations and its history. -/
def surroundings (c : Connection) : Connection :=
  { c with answers := .empty, exports := {}, cancellations := [], history := [] }

/-- An operation has done what it does through one record. -/
structure Performs (c : Connection) (id : AnswerId) (e : Effect) (c' : Connection) : Prop where
  answers : ∀ j, c'.answers.get? j = if j = id then e.record else c.answers.get? j
  exports : c'.exports = (c.exports.release e.back).exports
  cancellations : c'.cancellations = e.tokens ++ c.cancellations
  history : c'.history = e.events (c.exports.release e.back).errors ++ c.history
  rest : c'.surroundings = c.surroundings

/-- An operation works on the record under one id: what it does depends on that record, and it gives back no
    more than the record notes. -/
structure Works (id : AnswerId) (op : Connection → Connection) (does : Option Answer → Effect) : Prop where
  performs : ∀ c : Connection, c.Performs id (does (c.answers.get? id)) (op c)
  back : ∀ a e, (does a).back.count e ≤ (a.elim [] Answer.exports).count e

/-- Two connections that do not differ, but in the order in which tokens were told to cancel and in which
    they called out. -/
structure Agrees (c c' : Connection) : Prop where
  answers : ∀ id, c.answers.get? id = c'.answers.get? id
  exports : c.exports.Same c'.exports
  cancellations : c.cancellations.Perm c'.cancellations
  history : c.history.Perm c'.history
  rest : c.surroundings = c'.surroundings

/-- What the record under an id notes. -/
def notes (c : Connection) (id : AnswerId) : List ExportId :=
  (c.answers.get? id).elim [] Answer.exports

/-- The records under two ids together note no reference more often than all do. -/
theorem count_notes_le (c : Connection) {i j : AnswerId} (hij : i ≠ j) (e : ExportId) :
    (c.notes i).count e + (c.notes j).count e ≤ c.books.noted e := by
  have hone : ∀ {id a}, c.answers.get? id = some a → a.exports.count e ≤ c.books.noted e :=
    fun h => c.answers.le_total (fun a => a.exports.count e) h
  unfold notes
  cases hi : c.answers.get? i with
  | none =>
      cases hj : c.answers.get? j with
      | none => simp
      | some b => simpa using hone hj
  | some a =>
      cases hj : c.answers.get? j with
      | none => simpa using hone hi
      | some b => exact Books.count_add_count_le hi hj hij.symm e

/-- What the records under two ids note can be given back in either order. -/
theorem Reachable.releaseComm {c : Connection} (hc : Reachable c) {i j : AnswerId} (hij : i ≠ j)
    {ids ids' : List ExportId} (back : ∀ e, ids.count e ≤ (c.notes i).count e)
    (back' : ∀ e, ids'.count e ≤ (c.notes j).count e) : c.exports.ReleaseComm ids ids' := by
  cases hdown : c.isDown with
  | true =>
      rw [hc.exports_of_down hdown]
      exact Exports.releaseComm_of_empty ids ids'
  | false =>
      refine Exports.releaseComm_of_counted hc.reckoning.exports fun e => ?_
      have hcovers : c.books.noted e ≤ c.exports.refs e :=
        hc.reckoning.covers ((c.isDown_eq_false_iff).1 hdown) e
      exact Nat.le_trans (Nat.add_le_add (back e) (back' e)) (Nat.le_trans (c.count_notes_le hij e) hcovers)

/-- The references to capabilities of ours that an operation gives up. -/
def givesUp (c : Connection) (id : AnswerId) (does : Option Answer → Effect) : List Capability :=
  (c.exports.release (does (c.answers.get? id)).back).released

/-- Two operations come to the same in either order, and give up the same references on the way. -/
structure Exchange (c : Connection) (i j : AnswerId) (op op' : Connection → Connection)
    (does does' : Option Answer → Effect) : Prop where
  agree : (op' (op c)).Agrees (op (op' c))
  released : (c.givesUp i does ++ (op c).givesUp j does').Perm (c.givesUp j does' ++ (op' c).givesUp i does)

/-- Operations on different records can be done in either order. -/
theorem Works.exchange {c : Connection} (hc : Reachable c) {i j : AnswerId} (hij : i ≠ j)
    {op op' : Connection → Connection} {does does' : Option Answer → Effect} (h : Works i op does)
    (h' : Works j op' does') : c.Exchange i j op op' does does' := by
  have hfirst := h.performs c
  have hfirst' := h'.performs c
  have hsecond := h'.performs (op c)
  have hsecond' := h.performs (op' c)
  -- neither changes what the other one finds
  rw [hfirst.answers, if_neg hij.symm] at hsecond
  rw [hfirst'.answers, if_neg hij] at hsecond'
  have hcomm := hc.releaseComm hij (h.back (c.answers.get? i)) (h'.back (c.answers.get? j))
  refine ⟨⟨fun id => ?_, ?_, ?_, ?_, ?_⟩, ?_⟩
  · rw [hsecond.answers, hsecond'.answers, hfirst.answers, hfirst'.answers]
    by_cases hi : id = i
    · subst hi
      simp [hij]
    · simp [hi]
  · rw [hsecond.exports, hsecond'.exports, hfirst.exports, hfirst'.exports]
    exact hcomm.same
  · rw [hsecond.cancellations, hsecond'.cancellations, hfirst.cancellations, hfirst'.cancellations]
    simp only [← List.append_assoc]
    exact List.perm_append_comm.append_right _
  · rw [hsecond.history, hsecond'.history, hfirst.history, hfirst'.history, hfirst.exports,
      hfirst'.exports, hcomm.errors, hcomm.errors']
    simp only [← List.append_assoc]
    exact List.perm_append_comm.append_right _
  · rw [hsecond.rest, hsecond'.rest, hfirst.rest, hfirst'.rest]
  · unfold givesUp
    rw [hfirst.answers, if_neg hij.symm, hfirst'.answers, if_neg hij, hfirst.exports, hfirst'.exports]
    exact hcomm.released

/-! ## The operations -/

theorem get?_putAnswer (c : Connection) (id : AnswerId) (a : Answer) (j : AnswerId) :
    (c.putAnswer id a).answers.get? j =
      if j = id then (if a.state.isDone then none else some a) else c.answers.get? j := by
  unfold putAnswer
  dsimp only
  split
  · rw [Table.get?_erase]
  · rw [Table.get?_insert]

/-- An operation that leaves everything as it is. -/
theorem performs_nothing {c : Connection} {id : AnswerId} {a : Option Answer}
    (ha : c.answers.get? id = a) {e : Effect} (h : e = { record := a }) : c.Performs id e c := by
  subst h
  refine ⟨fun j => ?_, rfl, rfl, rfl, rfl⟩
  split
  · next hj => rw [hj, ha]
  · rfl

/-- The peer's finish, given the record that it is for. -/
def finishing (id : AnswerId) (releaseCaps : Bool) : Option Answer → Effect
  | none => { record := none, events := fun _ => [.reported (.unknownQuestion id)] }
  | some a =>
      let b := a.markFinishReceived releaseCaps
      { record := if b.state.isDone then none else some b
        back := a.givenBack releaseCaps
        tokens := if b.isRunning then [a.token] else []
        events := fun errors => (errors.map Event.reported).reverse ++
          if b.state.isDone then [.releasedOnFinish id] else [] }

theorem works_finish (id : AnswerId) (releaseCaps : Bool) :
    Works id (fun c => c.finish id releaseCaps) (finishing id releaseCaps) where
  performs c := by
    cases ha : c.answers.get? id with
    | none =>
        rw [c.finish_of_none releaseCaps ha]
        refine ⟨fun j => ?_, rfl, rfl, rfl, rfl⟩
        by_cases hj : j = id
        · subst hj
          simp [finishing, report, emit, ha]
        · simp [hj, report, emit]
    | some a =>
        have hrunning : (if (a.markFinishReceived releaseCaps).isRunning then a.token :: c.cancellations
            else c.cancellations) = (finishing id releaseCaps (some a)).tokens ++ c.cancellations := by
          simp only [finishing]
          split <;> rfl
        simp only [finish, ha, reportAll_shape]
        split
        · next hdone =>
            refine ⟨fun j => (get?_putAnswer _ id _ j).trans ?_, rfl, hrunning, ?_, rfl⟩
            · simp [finishing]
            · simp [finishing, hdone, emit, putAnswer]
        · next hleft =>
            refine ⟨fun j => (get?_putAnswer _ id _ j).trans ?_, rfl, hrunning, ?_, rfl⟩
            · simp [finishing]
            · simp [finishing, hleft, putAnswer]
  back a e := by
    cases a with
    | none => simp [finishing]
    | some a => cases releaseCaps <;> simp [finishing, Answer.givenBack]

/-- The end of a return, given the record that it is of. -/
def ending (id : AnswerId) : Option Answer → Effect
  | none => { record := none }
  | some a =>
      let b := a.markReturnSent
      { record := if b.state.isDone then none else some b
        events := fun _ => if b.state.isDone then [.releasedAfterReturn id] else [] }

theorem works_endReturn (id : AnswerId) : Works id (fun c => c.endReturn id) (ending id) where
  performs c := by
    cases ha : c.answers.get? id with
    | none =>
        rw [c.endReturn_of_none ha]
        exact performs_nothing ha rfl
    | some a =>
        simp only [endReturn, ha]
        split
        · next hdone =>
            refine ⟨fun j => (get?_putAnswer _ id _ j).trans ?_, rfl, rfl, ?_, rfl⟩
            · simp [ending]
            · simp [ending, hdone, emit, putAnswer]
        · next hleft =>
            refine ⟨fun j => (get?_putAnswer _ id _ j).trans ?_, rfl, rfl, ?_, rfl⟩
            · simp [ending]
            · simp [ending, hleft, putAnswer]
  back a e := by cases a <;> simp [ending]

/-- Giving up on a call, given its record. -/
def givingUp (id : AnswerId) : Option Answer → Effect
  | none => { record := none }
  | some a =>
      let b := (a.complete (some .callCanceled)).markReturnSent
      { record := if b.state.isDone then none else some b
        events := fun _ => if b.state.isDone then [] else [.reported (.droppedUnreturned id)] }

theorem works_cancelReturn (id : AnswerId) : Works id (fun c => c.cancelReturn id) (givingUp id) where
  performs c := by
    cases ha : c.answers.get? id with
    | none =>
        rw [c.cancelReturn_of_none ha]
        exact performs_nothing ha rfl
    | some a =>
        simp only [cancelReturn, ha]
        split
        · next hdone =>
            refine ⟨fun j => (get?_putAnswer _ id _ j).trans ?_, rfl, rfl, ?_, rfl⟩
            · simp [givingUp]
            · simp [givingUp, hdone, putAnswer]
        · next hleft =>
            refine ⟨fun j => (get?_putAnswer _ id _ j).trans ?_, rfl, rfl, ?_, rfl⟩
            · simp [givingUp]
            · simp [givingUp, hleft, report, emit, putAnswer]
  back a e := by cases a <;> simp [givingUp]

/-- The installation of a receiver, given the record that it is for. -/
def installing (name : CallerName) : Option Answer → Effect
  | none => { record := none }
  | some a => { record := if a.state.resultsReady then some a else some { a with caller := some name } }

theorem works_setPipeline (id : AnswerId) (name : CallerName) :
    Works id (fun c => c.setPipeline id name) (installing name) where
  performs c := by
    cases ha : c.answers.get? id with
    | none =>
        have hstay : c.setPipeline id name = c := by simp [setPipeline, ha]
        rw [hstay]
        exact performs_nothing ha rfl
    | some a =>
        simp only [setPipeline, ha]
        split
        · next hready => exact performs_nothing ha (by simp [installing, hready])
        · next hopen =>
            refine ⟨fun j => (c.answers.get?_insert id j _).trans ?_, rfl, rfl, rfl, rfl⟩
            simp [installing, hopen]
  back a e := by cases a <;> simp [installing]

/-! ## All connections -/

/-- What the peer's finish of one answer can be exchanged with. -/
structure FinishCommutes (c : Connection) (i : AnswerId) (releaseCaps : Bool) (j : AnswerId) : Prop where
  finish : ∀ others : Bool, c.Exchange i j (fun c => c.finish i releaseCaps) (fun c => c.finish j others)
    (finishing i releaseCaps) (finishing j others)
  endReturn : c.Exchange i j (fun c => c.finish i releaseCaps) (fun c => c.endReturn j)
    (finishing i releaseCaps) (ending j)
  cancelReturn : c.Exchange i j (fun c => c.finish i releaseCaps) (fun c => c.cancelReturn j)
    (finishing i releaseCaps) (givingUp j)
  setPipeline : ∀ name, c.Exchange i j (fun c => c.finish i releaseCaps) (fun c => c.setPipeline j name)
    (finishing i releaseCaps) (installing name)

/-- On every connection that can come about, the peer's finish of one answer can be exchanged with its finish
    of another, with the end of that one's return, with giving up on its call and with the installation of a
    receiver for it. -/
theorem Reachable.finishCommutes {c : Connection} (hc : Reachable c) {i j : AnswerId} (hij : i ≠ j)
    (releaseCaps : Bool) : c.FinishCommutes i releaseCaps j where
  finish others := (works_finish i releaseCaps).exchange hc hij (works_finish j others)
  endReturn := (works_finish i releaseCaps).exchange hc hij (works_endReturn j)
  cancelReturn := (works_finish i releaseCaps).exchange hc hij (works_cancelReturn j)
  setPipeline name := (works_finish i releaseCaps).exchange hc hij (works_setPipeline j name)

/-- A run after which two answers hold references to one export. -/
def doubledRun : List Action :=
  [.newAnswer 1 "first", .newAnswer 2 "second", .setBootstrap ⟨1, 0⟩ ⟨"object", 5⟩,
    .setBootstrap ⟨2, 1⟩ ⟨"object", 5⟩, .sendReturn ⟨1, 0⟩ (.ok ()) none,
    .sendReturn ⟨2, 1⟩ (.ok ()) none, .poll 0, .poll 1]

theorem finishCommutes_after_doubling :
    ((initial {}).after doubledRun).exports.refs 0 = 2 ∧ (1 : AnswerId) ≠ 2 ∧
      ((initial {}).after doubledRun).FinishCommutes 1 true 2 :=
  ⟨by decide +kernel, by decide, ((Reachable.initial {}).after doubledRun).finishCommutes (by decide) true⟩

end Connection

end Callee
