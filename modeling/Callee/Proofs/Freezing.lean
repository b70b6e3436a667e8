import Callee.Proofs.Pipelining
import Callee.Proofs.Sealing

set_option autoImplicit false

/-! # What a completed call answers to a path

When a call has completed, its record keeps the error or the results that it completed with, for good
(`fixed_after`), and nothing but a handle to one of their structs writes to where the results stand. So the
answer to a pipelined call can change in one way only: a field that its path reads is pointed elsewhere
through such a handle (`Reachable.frozen`). That does happen: nothing takes the handles back when the
results are ready (`thaws_after_lateWrite`). -/

namespace Callee

namespace Arena

/-! ## What a path reads -/

/-- The fields that a path reads on its way, each with the struct that it is in. -/
def reads (a : Arena) : Pointer → List PathStep → List (Nat × UInt16)
  | _, [] => []
  | p, .stay :: rest => a.reads p rest
  | .struct s, .field index :: rest => (s, index) :: a.reads (a.field s index) rest
  | _, .field _ :: _ => []

/-- Fields are a matter of the pointer sections. -/
theorem field_eq (a : Arena) (s : Nat) (index : UInt16) :
    a.field s index = ((a.structs.map StructBody.pointers)[s]?.getD []).getD index.toNat .null := by
  unfold field
  rw [List.getElem?_map]
  cases a.structs[s]? with
  | none => simp
  | some body => rfl

theorem field_putField_of_ne (a : Arena) {s struct : Nat} {i index : UInt16} (p : Pointer)
    (h : s = struct → i ≠ index) : (a.putField struct index p).field s i = a.field s i := by
  unfold field putField
  rw [List.getElem?_modify]
  cases a.structs[s]? with
  | none => rfl
  | some body =>
      by_cases hs : struct = s
      · have hne : index.toNat ≠ i.toNat := fun heq => h hs.symm (UInt16.toNat_inj.1 heq.symm)
        simp [hs, List.getElem?_set_ne hne]
      · simp [hs]

theorem field_append {a b : Arena} {more : List StructBody} (h : b.structs = a.structs ++ more) {s : Nat}
    (hs : s < a.structs.length) (index : UInt16) : b.field s index = a.field s index := by
  unfold field
  rw [h, List.getElem?_append_left hs]

namespace Edited

variable {a b : Arena} {struct : Nat} {change : StructEdit}

/-- A write leaves every field but the one that it is about. -/
theorem field_eq (h : a.Edited struct change b) {s : Nat} {index : UInt16} (hs : s < a.structs.length)
    (hne : change.field? = some index → s ≠ struct) : b.field s index = a.field s index := by
  cases h with
  | word _ _ _ pointers => rw [Arena.field_eq, Arena.field_eq, pointers]
  | pointer field _ structs _ _ put =>
      subst put
      refine (field_putField_of_ne _ _ fun hsame hindex => ?_).trans (field_append structs hs index)
      exact hne (hindex ▸ field) hsame

theorem target_eq (h : a.Edited struct change b) {p : Pointer} (hp : a.Has p) :
    b.target p = a.target p := by
  have hcaps : ∃ more, b.caps = a.caps ++ more := by
    cases h with
    | word _ _ caps _ => exact ⟨[], by rw [caps, List.append_nil]⟩
    | pointer _ _ _ added _ put =>
        subst put
        exact ⟨_, added⟩
  obtain ⟨more, hmore⟩ := hcaps
  cases p with
  | null => rfl
  | struct s => rfl
  | capability index => simp only [target, capability?, hmore, List.getElem?_append_left hp]

/-- A path that does not read what is written goes where it went, by the same fields. -/
theorem walk_eq (h : a.Edited struct change b) (hsound : a.Sound) (path : List PathStep) {p : Pointer}
    (hp : a.Has p) (hread : ∀ index, change.field? = some index → (struct, index) ∉ a.reads p path) :
    b.walk p path = a.walk p path ∧ b.reads p path = a.reads p path ∧
      ∀ q, a.walk p path = .ok q → a.Has q := by
  induction path generalizing p with
  | nil => exact ⟨rfl, rfl, fun q hq => Except.ok.inj hq ▸ hp⟩
  | cons step rest ih =>
      cases step with
      | stay =>
          simp only [reads] at hread ⊢
          exact ih hp hread
      | field i =>
          cases p with
          | null =>
              simp only [walk_null]
              exact ⟨trivial, rfl, fun q hq => Except.ok.inj hq ▸ trivial⟩
          | capability j => exact ⟨rfl, rfl, fun q hq => absurd hq (by simp [walk, follow])⟩
          | struct s =>
              have hs : s < a.structs.length := hp
              have hs' : s < b.structs.length := Nat.lt_of_lt_of_le hs h.grows.structs
              have hfield : b.field s i = a.field s i := by
                refine h.field_eq hs fun hi hsame => hread i hi ?_
                exact hsame ▸ List.mem_cons_self
              obtain ⟨hwalk, hreads, hhas⟩ := ih (hsound.has_field s i) fun index hindex hin =>
                hread index hindex (List.mem_cons_of_mem _ hin)
              simp only [walk, follow, reads, if_pos hs, if_pos hs', hfield]
              exact ⟨hwalk, by rw [hreads], hhas⟩

theorem resolve_eq (h : a.Edited struct change b) (hsound : a.Sound) {path : List PathStep} {p : Pointer}
    (hp : a.Has p) (hread : ∀ index, change.field? = some index → (struct, index) ∉ a.reads p path) :
    b.resolve p path = a.resolve p path ∧ b.reads p path = a.reads p path := by
  obtain ⟨hwalk, hreads, hhas⟩ := h.walk_eq hsound path hp hread
  refine ⟨?_, hreads⟩
  unfold resolve
  rw [hwalk]
  split
  · next q hq => exact h.target_eq (hhas q hq)
  · rfl

end Edited

end Arena

/-- The fields that a path through results reads. -/
def MessageStore.reads (s : MessageStore) (r : ResultsRef) (path : List PathStep) :
    List (StructRef × UInt16) :=
  ((s.arena r.arena).reads r.content path).map fun field => (⟨r.arena, field.1⟩, field.2)

/-- The capability that a pipelined call is for, by identity, if it was resolved. -/
def Forwarded.identity? : Forwarded → Option UInt64
  | .pipelined => none
  | .resolved target _ => some target.identity

namespace Connection

/-! ## Results that nobody rewrites -/

/-- The field that an action points elsewhere through a handle to its struct, if it does. -/
def repoints (c : Connection) : Action → List (StructRef × UInt16)
  | .edit ref change =>
      match (c.messages.edit ref change).1 with
      | .ok _ => (change.field?.map fun index => (ref, index)).toList
      | .error _ => []
  | _ => []

/-- What results are read from goes on giving the same to a path, as long as no field is pointed elsewhere
    that the path reads. -/
structure Rests (c : Connection) (r : ResultsRef) (path : List PathStep) (c' : Connection) : Prop where
  still : c'.Sealed r.arena
  has : (c'.messages.arena r.arena).Has r.content
  resolve : c'.messages.resolve r path = c.messages.resolve r path
  reads : c'.messages.reads r path = c.messages.reads r path

theorem rests_step {c : Connection} (hc : Reachable c) {r : ResultsRef} (hsealed : c.Sealed r.arena)
    (hhas : (c.messages.arena r.arena).Has r.content) {path : List PathStep} {action : Action}
    (hread : ∀ field ∈ c.repoints action, field ∉ c.messages.reads r path) :
    c.Rests r path (c.step action).2 := by
  obtain ⟨hstill, hsame | ⟨index, change, child, rfl, hedit⟩⟩ := sealed_step hsealed action
  · exact ⟨hstill, hsame ▸ hhas, by simp only [MessageStore.resolve, hsame],
      by simp only [MessageStore.reads, hsame]⟩
  · have hedited := Arena.edited hedit
    have hmiss : ∀ i, change.field? = some i →
        (index, i) ∉ (c.messages.arena r.arena).reads r.content path := by
      intro i hi hin
      have hpoints : (⟨r.arena, index⟩, i) ∈ c.repoints (.edit ⟨r.arena, index⟩ change) := by
        simp [repoints, MessageStore.edit, hedit, hi]
      exact hread _ hpoints (List.mem_map.2 ⟨(index, i), hin, rfl⟩)
    obtain ⟨hresolve, hreads⟩ := hedited.resolve_eq (hc.stored.sound _) hhas hmiss
    exact ⟨hstill, hedited.grows.has hhas, hresolve, by simp only [MessageStore.reads, hreads]⟩

theorem rests_after {c : Connection} (hc : Reachable c) {r : ResultsRef} (hsealed : c.Sealed r.arena)
    (hhas : (c.messages.arena r.arena).Has r.content) {path : List PathStep} {actions : List Action}
    (hread : ∀ field ∈ along repoints c actions, field ∉ c.messages.reads r path) :
    c.Rests r path (c.after actions) := by
  induction actions generalizing c with
  | nil => exact ⟨hsealed, hhas, rfl, rfl⟩
  | cons action rest ih =>
      have hstep := rests_step hc hsealed hhas fun field hfield =>
        hread field (List.mem_append_left _ hfield)
      have hrest := ih (.step action hc) hstep.still hstep.has fun field hfield => by
        rw [hstep.reads]
        exact hread field (List.mem_append_right _ hfield)
      exact ⟨hrest.still, hrest.has, hrest.resolve.trans hstep.resolve, hrest.reads.trans hstep.reads⟩

/-! ## Records that are ready -/

/-- A record that is ready stays so, and keeps what its call completed with. -/
structure Fixed (a a' : Answer) : Prop where
  call : a'.call = a.call
  ready : a.state.resultsReady = true → a'.state.resultsReady = true
  error : a.state.resultsReady = true → a'.error = a.error
  results : a.state.resultsReady = true → a'.results = a.results

theorem Fixed.refl (a : Answer) : Fixed a a := ⟨rfl, fun h => h, fun _ => rfl, fun _ => rfl⟩

theorem Fixed.trans {a a' a'' : Answer} (h : Fixed a a') (h' : Fixed a' a'') : Fixed a a'' where
  call := h'.call.trans h.call
  ready hready := h'.ready (h.ready hready)
  error hready := (h'.error (h.ready hready)).trans (h.error hready)
  results hready := (h'.results (h.ready hready)).trans (h.results hready)

/-- A record whose call is running is not bound to anything. -/
theorem Fixed.of_open {a a' : Answer} (hcall : a'.call = a.call) (hopen : a.state.resultsReady = false) :
    Fixed a a' :=
  have hnot : ¬ a.state.resultsReady = true := by simp [hopen]
  ⟨hcall, fun h => absurd h hnot, fun h => absurd h hnot, fun h => absurd h hnot⟩

theorem Fixed.of_eq {c c' : Connection} (hanswers : c'.answers = c.answers)
    (hcalls : c'.nextCall = c.nextCall) : c.Descends Fixed c' :=
  ⟨Nat.le_of_eq hcalls.symm, fun _ a' h => Or.inl ⟨a', hanswers ▸ h, .refl a'⟩⟩

/-- The answer under an id, if there is one, belongs to a call that is running. -/
def OpenAt (answers : Table AnswerId Answer) (id : AnswerId) : Prop :=
  ∀ a, answers.get? id = some a → a.state.resultsReady = false

/-- A handle that is still building finds an answer whose call is running. -/
theorem Reachable.openAt {c : Connection} (hc : Reachable c) {p : Holder} {h : Handle}
    (hold : c.books.Holds p h .building) : OpenAt c.answers h.id := by
  obtain ⟨a, ha, -, hfits⟩ := hc.custody.found_at hold
  intro b hb
  obtain rfl := Option.some.inj (ha.symm.trans hb)
  exact hfits.2

/-- Only running calls are given up. -/
theorem Reachable.givesUp {c : Connection} (hc : Reachable c) : c.GivesUp OpenAt where
  alone h hheld := by
    have hget : c.handles.get? h.call = some h.id := by simpa [holds] using hheld
    exact hc.openAt (p := .executor) ⟨hget, rfl⟩
  tasked t h result guard hget := by
    have howes : c.books.taskOwes t = some (h, .building) := Books.taskOwes_of_get? (b := c.books) hget
    exact hc.openAt (p := .task t) howes

theorem Fixed.of_rewrites {a a' : Answer} (h : Rewrites (fun b => b.state.resultsReady = false) a a') :
    Fixed a a' := by
  induction h with
  | same => exact .refl a
  | canceled _ known ih => exact ih.trans (.of_open rfl known)
  | marked _ ih => exact ih.trans ⟨rfl, fun h => h, fun _ => rfl, fun _ => rfl⟩
  | worked _ e _ ih => exact ih.trans ⟨rfl, fun h => h, fun _ => rfl, fun _ => rfl⟩
  | routed _ name _ ih => exact ih.trans ⟨rfl, fun h => h, fun _ => rfl, fun _ => rfl⟩
  | cut _ ih => exact ih.trans ⟨rfl, fun h => h, fun _ => rfl, fun _ => rfl⟩

theorem fixed_rule : SteadyRule OpenAt (Descends Fixed) :=
  (renews_steady _).mono (fun h h' => h.trans h' Fixed.call .trans) fun h => h.descends Fixed.call Fixed.of_rewrites

/-- What a step opens with. -/
theorem fixed_transfer {c : Connection} (hc : Reachable c) (action : Action) :
    c.Descends Fixed (c.transfer action) := by
  cases c.opening action with
  | nothing htransfer =>
      rw [htransfer]
      exact Fixed.of_eq rfl rfl
  | @begins t h result owes htransfer =>
      -- a completion begins only for a call that is running
      rw [htransfer]
      have hopen := hc.openAt (p := .task t) owes
      cases ha : c.answers.get? h.id with
      | none =>
          rw [c.beginReturn_of_none result ha]
          exact Fixed.of_eq rfl rfl
      | some a =>
          obtain ⟨begun, ms, x, hs, p, a', heq, -, hcall, -⟩ := c.beginReturn_shape result ha
          rw [heq]
          exact .of_replaced ha (.of_open hcall (hopen a ha)) .refl (Or.inl rfl) rfl
  | @finishes id releaseCaps hfinish =>
      subst hfinish
      show c.Descends Fixed (c.finish id releaseCaps)
      cases ha : c.answers.get? id with
      | none =>
          rw [c.finish_of_none releaseCaps ha]
          exact Fixed.of_eq rfl rfl
      | some a =>
          obtain ⟨hs, ts, heq⟩ := c.finish_shape releaseCaps ha
          have hfixed : Fixed a (a.markFinishReceived releaseCaps) :=
            ⟨rfl, fun h => h, fun _ => rfl, fun _ => rfl⟩
          rw [heq]
          exact .of_replaced ha hfixed .refl (answers_putAnswer _ id _) rfl

theorem fixed_step {c : Connection} (hc : Reachable c) (action : Action) :
    c.Descends Fixed (c.step action).2 := by
  by_cases hset : ∃ id name, action = .setPipeline id name
  · obtain ⟨id, name, rfl⟩ := hset
    rcases c.step_setPipeline id name with ⟨heq, -⟩ | ⟨a, ha, hopen, heq, -⟩ <;> rw [heq]
    · exact Fixed.of_eq rfl rfl
    · have hfixed : Fixed a { a with caller := some name } := .of_open rfl hopen
      exact .of_replaced ha hfixed .refl (Or.inl rfl) rfl
  by_cases hedit : ∃ ref change, action = .edit ref change
  · obtain ⟨ref, change, rfl⟩ := hedit
    simp only [Connection.step]
    split <;> exact Fixed.of_eq rfl rfl
  exact (fixed_transfer hc action).trans (fixed_rule.step_of_ne hc.givesUp
    (fun id name h => hset ⟨id, name, h⟩) fun ref change h => hedit ⟨ref, change, h⟩) Fixed.call .trans

theorem fixed_after {c : Connection} (hc : Reachable c) (actions : List Action) :
    c.Descends Fixed (c.after actions) := by
  induction actions generalizing c with
  | nil => exact Fixed.of_eq rfl rfl
  | cons action rest ih => exact (fixed_step hc action).trans (ih (.step action hc)) Fixed.call .trans

/-! ## The answer to a path -/

/-- What a completed call answers to a path: its error, or what its results resolve the path to. -/
def settled (c : Connection) (id : AnswerId) (a : Answer) (path : List PathStep) :
    Except Error Capability :=
  match a.error with
  | some e => .error e
  | none =>
      match a.results with
      | some r => c.messages.resolve r path
      | none => .error (.noResults id)

theorem forward_of_ready {c : Connection} (hc : Reachable c) {id : AnswerId} {a : Answer}
    (ha : c.answers.get? id = some a) (hready : a.state.resultsReady = true) (call : PipelinedCall) :
    c.forward id call = ((c.settled id a call.path).map fun cap => .resolved cap call, c) := by
  have hroute : c.route id call.path = (c.settled id a call.path).map Route.target := by
    simp only [route, ha, hc.idle ha hready, hready, if_true, settled]
    cases a.error with
    | some e => rfl
    | none => cases a.results <;> rfl
  unfold forward forwardWithin
  rw [hroute]
  cases c.settled id a call.path <;> rfl

/-- The fields that a path through the results of an answer reads. -/
def reads (c : Connection) (a : Answer) (path : List PathStep) : List (StructRef × UInt16) :=
  match a.results with
  | some r => c.messages.reads r path
  | none => []

/-- From when a call has completed until its record leaves the table, the answer to a pipelined call is the
    same, unless a field that its path reads is pointed elsewhere through a handle to a struct. -/
theorem Reachable.frozen {c : Connection} (hc : Reachable c) {id id' : AnswerId} {a b : Answer}
    (ha : c.answers.get? id = some a) (hready : a.state.resultsReady = true) {actions : List Action}
    (hb : (c.after actions).answers.get? id' = some b) (hcall : b.call = a.call) {call : PipelinedCall}
    (hread : ∀ field ∈ along repoints c actions, field ∉ c.reads a call.path) :
    id' = id ∧ ((c.after actions).forward id' call).1 = (c.forward id call).1 := by
  obtain ⟨rfl, hfixed⟩ := (fixed_after hc actions).same_record hc Fixed.call ha hb hcall
  refine ⟨rfl, ?_⟩
  rw [forward_of_ready hc ha hready, forward_of_ready (hc.after actions) hb (hfixed.ready hready)]
  have hsettled : (c.after actions).settled id' b call.path = c.settled id' a call.path := by
    unfold settled
    rw [hfixed.error hready, hfixed.results hready]
    cases herror : a.error with
    | some e => rfl
    | none =>
        cases hresults : a.results with
        | none => rfl
        | some r =>
            simp only [reads, hresults] at hread
            exact (rests_after hc (hc.sealed ha hresults) (hc.stored.results ha hresults).2 hread).resolve
  rw [hsettled]

/-- A run in which a call completes with a struct as its results: the first field is null, the second holds
    a capability, and the handle to the struct is still there. -/
def heldHandle : List Action :=
  [.newAnswer 1 "call", .allocateResults ⟨1, 0⟩ ⟨1, 2⟩, .edit ⟨0, 0⟩ (.setCapability 1 ⟨"object", 5⟩),
    .sendReturn ⟨1, 0⟩ (.ok ()) none, .poll 0]

/-- The handle is used on the first field, and the connection comes to its end. -/
def lateWrite : List Action :=
  [.edit ⟨0, 0⟩ (.setCapability 0 ⟨"late", 6⟩), .edit ⟨0, 0⟩ (.setWord 0 9),
    .disconnect (.external .failed "bye"), .poll 1]

/-- A path through the second field does not notice. -/
theorem frozen_after_lateWrite :
    let c := (initial {}).after heldHandle
    let call : PipelinedCall := ⟨3, 7, 0, [.field 1]⟩
    (c.forward 1 call).1 = .ok (.resolved ⟨"object", 5⟩ call) ∧
      (∃ a b, c.answers.get? 1 = some a ∧ a.state.resultsReady = true ∧
        (c.after lateWrite).answers.get? 1 = some b ∧ b.call = a.call ∧
        along repoints c lateWrite = [(⟨0, 0⟩, 0)] ∧ c.reads a call.path = [(⟨0, 0⟩, 1)]) ∧
      ((c.after lateWrite).forward 1 call).1 = (c.forward 1 call).1 := by
  have hc := (Reachable.initial {}).after heldHandle
  refine ⟨by decide +kernel, ⟨_, _, rfl, rfl, rfl, rfl, by decide +kernel, by decide +kernel⟩, ?_⟩
  refine (@Reachable.frozen _ hc 1 1 _ _ rfl rfl lateWrite rfl rfl _ ?_).2
  decide +kernel

/-- The results of a call that has completed can still change: a path through the first field fails before
    the write and leads to a capability after it. -/
theorem thaws_after_lateWrite :
    ¬ ∀ options actions more id a b call, ((initial options).after actions).answers.get? id = some a →
      a.state.resultsReady = true →
      (((initial options).after actions).after more).answers.get? id = some b → b.call = a.call →
      ((((initial options).after actions).after more).forward id call).1.map Forwarded.identity? =
        (((initial options).after actions).forward id call).1.map Forwarded.identity? := by
  intro h
  have hsame := h {} heldHandle lateWrite 1 _ _ ⟨3, 7, 0, [.field 0]⟩ rfl rfl rfl rfl
  revert hsame
  decide +kernel

end Connection

end Callee
