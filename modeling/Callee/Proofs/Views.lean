import Callee.Proofs.Pipelining
import Callee.Proofs.Polling
import Callee.Proofs.Sealing

set_option autoImplicit false

/-! # What a connection has of one call

A `View` is what a connection has of one call, whatever the numbers are under which it keeps it: while the
call is running its receiver and the return under construction, afterwards what the call completed with. A
`Deed` is something that is done to a call, and `deeds` lists what an action does to one. Most of what
happens on a connection is about other calls, and leaves the view as it is: the second half of this file
says so of each operation (`Passes`). -/

namespace Callee

/-! ## Messages without numbers -/

/-- A payload with every export under one id. -/
def Payload.unnumbered (p : Payload) : Payload :=
  { p with capTable := p.capTable.map (Option.map fun _ => 0) }

/-- An outcome with every export under one id. -/
def Outcome.unnumbered : Outcome → Outcome
  | .results payload => .results payload.unnumbered
  | outcome => outcome

/-- A root with every export under one id. -/
def Root.unnumbered : Root → Root
  | .return ret => .return { ret with outcome := ret.outcome.unnumbered }
  | root => root

/-- A message with every export under one id. -/
def Message.unnumbered (m : Message) : Message :=
  { m with root := m.root.map Root.unnumbered }

/-- The results in a message, with the storage that they are read from. -/
def Message.results? (m : Message) : Option (Arena × Pointer) :=
  (m.root.bind Root.content?).map fun p => (m.arena, p)

/-- An arena after a write through a handle to a struct, if the write can be carried out. -/
def Arena.rewritten (a : Arena) (struct : Nat) (change : StructEdit) : Arena :=
  match a.edit struct change with
  | .ok (_, b) => b
  | .error _ => a

theorem MessageStore.arena_edit (s : MessageStore) (ref : StructRef) (change : StructEdit) (r : ArenaId) :
    (s.edit ref change).2.arena r =
      if r = ref.arena then (s.arena r).rewritten ref.index change else s.arena r := by
  unfold edit Arena.rewritten
  by_cases hr : r = ref.arena
  · subst hr
    rw [if_pos rfl]
    cases (s.arena ref.arena).edit ref.index change with
    | error e => rfl
    | ok written => exact s.arena_putArena_self _ _
  · rw [if_neg hr]
    cases (s.arena ref.arena).edit ref.index change with
    | error e => rfl
    | ok written => exact s.arena_putArena_of_ne hr _

/-- The results that are read off a message that was put back are those in it. -/
theorem MessageStore.results?_put (s : MessageStore) (e : Envelope) (m : Message) :
    ((s.put e m).1.results?.map fun r => ((s.put e m).2.arena r.arena, r.content)) = m.results? := by
  simp only [Envelope.results?_eq, put, Option.map_map, Message.results?]
  congr 1
  funext p
  simp

@[simp] theorem Message.results?_unnumbered (m : Message) : m.unnumbered.results? = m.results? := by
  obtain ⟨arena, root⟩ := m
  rcases root with _ | ⟨id, release, outcome⟩ | exc
  · rfl
  · cases outcome <;> rfl
  · rfl

/-- Changes of the results that differ in numbers only give messages that do. -/
theorem Message.unnumbered_modifyResults (m : Message) {f g : Payload → Payload}
    (h : ∀ p, (f p).unnumbered = (g p).unnumbered) :
    (m.modifyResults f).map Message.unnumbered = (m.modifyResults g).map Message.unnumbered := by
  unfold modifyResults
  cases m.getResults with
  | error e => rfl
  | ok payload =>
      simp only [modifyReturn]
      cases m.getReturn with
      | error e => rfl
      | ok ret => simp [Except.map, unnumbered, Root.unnumbered, Outcome.unnumbered, h]

namespace Exports

/-- A slot is described if it is filled, under whatever id. -/
theorem unnumbered_describe (x : Exports) (caps : List (Option Capability)) :
    (x.describe caps).value.1.map (Option.map fun _ => 0) = caps.map (Option.map fun _ => 0) := by
  induction caps generalizing x with
  | nil => rfl
  | cons slot rest ih => cases slot <;> simp [describe, ih]

theorem unnumbered_writeDescriptors (x y : Exports) (m : Message) :
    (x.writeDescriptors m).value.2.1.unnumbered = (y.writeDescriptors m).value.2.1.unnumbered := by
  rw [value_writeDescriptors, value_writeDescriptors]
  split
  · rfl
  · next m₁ _ =>
      have hsame := m₁.unnumbered_modifyResults
        (f := fun payload => { payload with capTable := (x.describe m₁.arena.caps).value.1 })
        (g := fun payload => { payload with capTable := (y.describe m₁.arena.caps).value.1 })
        fun p => by simp [Payload.unnumbered, unnumbered_describe]
      dsimp only
      split <;> next heq => split <;> next heq' => simp_all [Except.map]

/-- What is written out of results depends on the exports in the numbers only. -/
theorem unnumbered_writeResults (x y : Exports) (m : Message) (down : Bool) :
    (x.writeResults m down).message.unnumbered = (y.writeResults m down).message.unnumbered := by
  have hwritten := x.unnumbered_writeDescriptors y m.ensureResults.1
  unfold writeResults
  cases down with
  | true => rfl
  | false =>
      simp only [Bool.false_eq_true, if_false]
      split <;> next heq => split <;> next heq' => rw [heq, heq'] at hwritten; exact hwritten

end Exports

/-! ## Views and deeds -/

/-- What a connection has of one call. -/
inductive View where
  /-- The call is running: its receiver, and its return under construction, if one was reserved. -/
  | running (caller : Option CallerName) (draft : Option Message)
  /-- The call has completed: its error, or its results if it has any. -/
  | completed (outcome : Except Error (Option (Arena × Pointer)))
  deriving DecidableEq

/-- What is done to a call. -/
inductive Deed where
  | allocate (size : ObjectSize)
  | boot (cap : Capability)
  | edit (struct : Nat) (change : StructEdit)
  | route (name : CallerName)
  /-- It completes, while the connection is up or when it is down. -/
  | complete (down : Bool) (result : Except Error Unit)
  | giveUp
  /-- The connection comes to its end. -/
  | cut
  deriving DecidableEq

/-- What a call that completes without an error leaves of its return. -/
def Message.completed (m : Message) (down : Bool) : Message :=
  (({} : Exports).writeResults m down).message

theorem results?_writeResults (x : Exports) (m : Message) (down : Bool) :
    (x.writeResults m down).message.results? = (m.completed down).results? := by
  rw [← Message.results?_unnumbered, x.unnumbered_writeResults {}, Message.results?_unnumbered]
  rfl

/-- What a deed makes of a view. -/
def View.after : View → Deed → View
  | .running caller draft, .allocate size =>
      .running caller (draft.map fun m => (m.allocateResults size).2)
  | .running caller draft, .boot cap => .running caller (draft.map fun m => (m.setBootstrap cap).2)
  | .running caller draft, .edit struct change =>
      .running caller (draft.map fun m => { m with arena := m.arena.rewritten struct change })
  | .running _ draft, .route name => .running (some name) draft
  | .running _ draft, .cut => .running none draft
  | .running _ draft, .complete down (.ok ()) =>
      .completed (.ok (draft.bind fun m => (m.completed down).results?))
  | .running _ _, .complete _ (.error e) => .completed (.error e)
  | .running _ _, .giveUp => .completed (.error .callCanceled)
  | .completed (.ok (some (a, p))), .edit struct change =>
      .completed (.ok (some (a.rewritten struct change, p)))
  | v, _ => v

/-- What a piece of work is to complete a call with, if it has yet to begin. -/
def Work.completion? (h : Handle) : Work → Option (Except Error Unit)
  | .sendReturn k (.unbegun result) => if k = h then some result else none
  | _ => none

namespace Connection

open Books

/-- The arena that the return of a running call is built in, or that the results of a completed one are read
    from. -/
def arenaOf? (c : Connection) (h : Handle) : Option ArenaId :=
  (c.answers.get? h.id).bind fun a =>
    if a.call = h.call then
      if a.state.resultsReady then a.results.map ResultsRef.arena else a.message.map Envelope.arena
    else none

/-- What the record of a call shows. -/
def viewOf (c : Connection) (a : Answer) : View :=
  if a.state.resultsReady then
    .completed (match a.error with
      | some e => .error e
      | none => .ok (a.results.map fun r => (c.messages.arena r.arena, r.content)))
  else .running a.caller (a.message.map c.messages.message)

/-- What the connection has of a call, as long as there is a record of it. -/
def view? (c : Connection) (h : Handle) : Option View :=
  (c.answers.get? h.id).bind fun a => if a.call = h.call then some (c.viewOf a) else none

/-- What an action does to a call. -/
def deeds (h : Handle) (c : Connection) : Action → List Deed
  | .allocateResults k size => if k = h ∧ c.holds k = true then [.allocate size] else []
  | .setBootstrap k cap => if k = h ∧ c.holds k = true then [.boot cap] else []
  | .edit ref change => if c.arenaOf? h = some ref.arena then [.edit ref.index change] else []
  | .setPipeline id name =>
      if id = h.id ∧ (c.view? h).isSome = true ∧ c.callers.contains name = true then [.route name] else []
  | .dropHandle k => if k = h ∧ c.holds k = true then [.giveUp] else []
  | .dropTask t =>
      match (c.tasks.get? t).bind fun task => task.work.completion? h with
      | some _ => [.giveUp]
      | none => []
  | .poll t =>
      match c.tasks.get? t with
      | none => []
      | some task =>
          match task.work.completion? h with
          | some result =>
              [if task.guard.any c.isCanceled then .giveUp else .complete c.isDown result]
          | none => if c.Broke (c.step (.poll t)).2 then [.cut] else []
  | _ => []

theorem view?_eq_some_iff (c : Connection) (h : Handle) (v : View) :
    c.view? h = some v ↔ ∃ a, c.answers.get? h.id = some a ∧ a.call = h.call ∧ c.viewOf a = v := by
  unfold view?
  rw [Option.bind_eq_some_iff]
  refine exists_congr fun a => and_congr_right fun _ => ?_
  split
  · next hcall => simp [hcall]
  · next hcall => simp [hcall]

/-! ## What leaves a view alone -/

/-- The parts of a record that are seen. -/
structure SameFace (a a' : Answer) : Prop where
  call : a'.call = a.call
  ready : a'.state.resultsReady = a.state.resultsReady
  caller : a'.caller = a.caller
  message : a'.message = a.message
  error : a'.error = a.error
  results : a'.results = a.results

theorem SameFace.refl (a : Answer) : SameFace a a := ⟨rfl, rfl, rfl, rfl, rfl, rfl⟩

/-- A view comes from the record and from the arenas that it leads to. -/
theorem viewOf_congr {c c' : Connection} {a a' : Answer} (face : SameFace a a')
    (message : ∀ e, a.message = some e → c'.messages.arena e.arena = c.messages.arena e.arena)
    (results : ∀ r, a.results = some r → c'.messages.arena r.arena = c.messages.arena r.arena) :
    c'.viewOf a' = c.viewOf a := by
  have hdraft : a.message.map c'.messages.message = a.message.map c.messages.message := by
    cases hmsg : a.message with
    | none => rfl
    | some e => simp [MessageStore.message, message e hmsg]
  have hread : a.results.map (fun r => (c'.messages.arena r.arena, r.content)) =
      a.results.map fun r => (c.messages.arena r.arena, r.content) := by
    cases hres : a.results with
    | none => rfl
    | some r => simp [results r hres]
  unfold viewOf
  rw [face.ready, face.caller, face.message, face.error, face.results, hdraft, hread]

/-- Whatever is seen of a call afterwards was seen before. -/
def Passes (h : Handle) (c c' : Connection) : Prop :=
  c.books.Stored → c'.books.Stored ∧ ∀ v, c'.view? h = some v → c.view? h = some v

namespace Passes

variable {h : Handle} {c c' c'' : Connection}

theorem trans (first : Passes h c c') (second : Passes h c' c'') : Passes h c c'' := by
  intro hc
  obtain ⟨hc', hview⟩ := first hc
  obtain ⟨hc'', hview'⟩ := second hc'
  exact ⟨hc'', fun v hv => hview v (hview' v hv)⟩

/-- The records stay, and arenas are added at most. -/
theorem of_eq (stored : c.books.Stored → c'.books.Stored) (answers : c'.answers = c.answers)
    (messages : c.messages.Adds c'.messages) : Passes h c c' := by
  refine fun hc => ⟨stored hc, fun v hv => ?_⟩
  obtain ⟨a, ha, hcall, rfl⟩ := (c'.view?_eq_some_iff h v).1 hv
  rw [answers] at ha
  refine (c.view?_eq_some_iff h _).2 ⟨a, ha, hcall, ?_⟩
  exact (viewOf_congr (.refl a) (fun e he => messages.same _ (hc.opened ha he).1)
    fun r hr => messages.same _ (hc.results ha hr).1).symm

/-- One record is replaced by another that shows the same, or leaves the table. -/
theorem of_rewritten {id : AnswerId} {a a' : Answer} (ha : c.answers.get? id = some a)
    (stored : c.books.Stored → c'.books.Stored)
    (answers : c'.answers = c.answers.insert id a' ∨ c'.answers = c.answers.erase id)
    (messages : c'.messages = c.messages)
    (face : id = h.id → a'.call = h.call → SameFace a a') : Passes h c c' := by
  refine fun hc => ⟨stored hc, fun v hv => ?_⟩
  obtain ⟨x, hx, hcall, rfl⟩ := (c'.view?_eq_some_iff h v).1 hv
  have harena : ∀ r, c'.messages.arena r = c.messages.arena r := fun r => by rw [messages]
  rcases Table.get?_of_replaced answers hx with ⟨hid, rfl⟩ | ⟨-, hx⟩
  · have hface := face hid.symm hcall
    refine (c.view?_eq_some_iff h _).2 ⟨a, hid ▸ ha, hface.call.symm.trans hcall, ?_⟩
    exact (viewOf_congr hface (fun e _ => harena _) fun r _ => harena _).symm
  · refine (c.view?_eq_some_iff h _).2 ⟨x, hx, hcall, ?_⟩
    exact (viewOf_congr (.refl x) (fun e _ => harena _) fun r _ => harena _).symm

/-- The return of another record is written to. -/
theorem of_put {id : AnswerId} {a a' : Answer} {e : Envelope} {m : Message}
    (ha : c.answers.get? id = some a) (he : a.message = some e)
    (other : id = h.id → a.call ≠ h.call) (stored : c.books.Stored → c'.books.Stored)
    (answers : c'.answers = c.answers.insert id a') (messages : c'.messages = (c.messages.put e m).2)
    (same : a'.call = a.call) : Passes h c c' := by
  refine fun hc => ⟨stored hc, fun v hv => ?_⟩
  obtain ⟨x, hx, hcall, rfl⟩ := (c'.view?_eq_some_iff h v).1 hv
  rcases Table.get?_of_replaced (Or.inl answers) hx with ⟨hid, rfl⟩ | ⟨hid, hx⟩
  · exact absurd (same.symm.trans hcall) (other hid.symm)
  · refine (c.view?_eq_some_iff h _).2 ⟨x, hx, hcall, ?_⟩
    rw [eq_comm]
    -- no other record has to do with the arena that is written to
    refine viewOf_congr (.refl x) (fun d hd => ?_) fun r hr => ?_
    · rw [messages]
      refine MessageStore.arena_putArena_of_ne _ (fun hsame => hid ?_) _
      exact hc.apart ha hx he hd hsame
    · rw [messages]
      exact MessageStore.arena_putArena_of_ne _ (hc.retained hx ha hr he).symm _

end Passes

/-! ## Operations that leave a view alone -/

theorem passes_quiet (h : Handle) {c c' : Connection} (same : c'.books = c.books) : Passes h c c' := by
  have hmessages : c'.messages = c.messages := congrArg Books.messages same
  exact .of_eq (fun hc => same ▸ hc) (congrArg Books.answers same) (hmessages ▸ .refl _)

/-- Handles and tasks change hands. -/
theorem passes_works (h : Handle) {c c' : Connection} (answers : c'.answers = c.answers)
    (messages : c'.messages = c.messages) : Passes h c c' := by
  have hadds : c.messages.Adds c'.messages := messages ▸ .refl _
  exact .of_eq (fun hc => hc.of_eq hadds.toGrows answers) answers hadds

theorem passes_endReturn (h : Handle) (c : Connection) (id : AnswerId) :
    Passes h c (c.endReturn id) := by
  have hstored := stored_rule.ends c id
  cases ha : c.answers.get? id with
  | none =>
      rw [c.endReturn_of_none ha]
      exact passes_quiet h rfl
  | some a =>
      obtain ⟨hs, heq⟩ := c.endReturn_shape ha
      rw [heq] at hstored ⊢
      exact .of_rewritten ha hstored (answers_putAnswer _ id _) rfl
        fun _ _ => ⟨rfl, rfl, rfl, rfl, rfl, rfl⟩

theorem passes_finish (h : Handle) (c : Connection) (id : AnswerId) (releaseCaps : Bool) :
    Passes h c (c.finish id releaseCaps) := by
  have hstored := stored_rule.finishes c id releaseCaps
  cases ha : c.answers.get? id with
  | none =>
      rw [c.finish_of_none releaseCaps ha]
      exact passes_quiet h rfl
  | some a =>
      obtain ⟨hs, ts, heq⟩ := c.finish_shape releaseCaps ha
      rw [heq] at hstored ⊢
      exact .of_rewritten ha hstored (answers_putAnswer _ id _) rfl
        fun _ _ => ⟨rfl, rfl, rfl, rfl, rfl, rfl⟩

/-- Another call is given up. -/
theorem passes_cancelReturn (h : Handle) (c : Connection) {id : AnswerId}
    (other : ∀ a, c.answers.get? id = some a → id = h.id → a.call ≠ h.call) :
    Passes h c (c.cancelReturn id) := by
  have hstored := stored_rule.cancels c id
  cases ha : c.answers.get? id with
  | none =>
      rw [c.cancelReturn_of_none ha]
      exact passes_quiet h rfl
  | some a =>
      obtain ⟨hs, heq⟩ := c.cancelReturn_shape ha
      rw [heq] at hstored ⊢
      exact .of_rewritten ha hstored (answers_putAnswer _ id _) rfl
        fun hid hcall => absurd hcall (other a ha hid)

/-- Another call begins to complete. -/
theorem passes_beginReturn (h : Handle) (c : Connection) {id : AnswerId} (result : Except Error Unit)
    (other : ∀ a, c.answers.get? id = some a → id = h.id → a.call ≠ h.call) :
    Passes h c (c.beginReturn id result).2 := by
  have hstored := fun hc => stored_beginReturn (c := c) hc id result
  cases ha : c.answers.get? id with
  | none =>
      rw [c.beginReturn_of_none result ha]
      exact passes_quiet h rfl
  | some a =>
      have hother := other a ha
      unfold beginReturn at hstored ⊢
      rw [ha] at hstored ⊢
      dsimp only at hstored ⊢
      split at hstored
      · exact .of_rewritten ha hstored (Or.inl rfl) rfl fun hid hcall => absurd hcall (hother hid)
      · next e hmsg =>
          simp only [returnResults, reportAll_shape] at hstored ⊢
          exact .of_put ha hmsg hother hstored rfl rfl rfl
      · next e x hmsg =>
          unfold returnError at hstored ⊢
          dsimp only at hstored ⊢
          split at hstored <;> exact .of_put ha hmsg hother hstored rfl rfl rfl

theorem passes_returnRule (h : Handle) : ReturnRule (Passes h) where
  trans := .trans
  stays _ := passes_quiet h rfl
  reports _ _ := passes_quiet h rfl
  sends c t call send := passes_quiet h (c.books_pollSend t (some call) send)
  ends := passes_endReturn h
  delivers c k w := passes_quiet h (c.books_awaitDeliveries k w)

theorem passes_endRule (h : Handle) : EndRule (Passes h) where
  trans := .trans
  stays _ := passes_quiet h rfl
  reports _ _ := passes_quiet h rfl
  sends c t send := passes_quiet h (c.books_pollSend t none send)
  orders c e := passes_quiet h (c.books_startShutdown e)
  awaits c gate := passes_quiet h (c.books_awaitShutdown gate)

/-! ## What the executor does to its return -/

/-- The return of a running call is worked on. -/
def revise (c : Connection) (id : AnswerId) (f : Message → Message) : Connection :=
  match c.answers.get? id with
  | none => c
  | some a =>
      match a.openReturn id with
      | .error _ => c
      | .ok e => c.putReturn id a e (f (c.messages.message e))

theorem allocateResults_eq_revise (c : Connection) (id : AnswerId) (size : ObjectSize) :
    (c.allocateResults id size).2 = c.revise id fun m => (m.allocateResults size).2 := by
  cases ha : c.answers.get? id with
  | none => simp only [allocateResults, revise, ha]
  | some a =>
      cases hopen : a.openReturn id with
      | error e => simp only [allocateResults, revise, ha, hopen]
      | ok e =>
          simp only [allocateResults, revise, ha, hopen]
          split <;> next heq => rw [heq]

theorem setBootstrap_eq_revise (c : Connection) (id : AnswerId) (cap : Capability) :
    (c.setBootstrap id cap).2 = c.revise id fun m => (m.setBootstrap cap).2 := by
  cases ha : c.answers.get? id with
  | none => simp only [setBootstrap, revise, ha]
  | some a =>
      cases hopen : a.openReturn id with
      | error e => simp only [setBootstrap, revise, ha, hopen]
      | ok e =>
          simp only [setBootstrap, revise, ha, hopen]
          split <;> next heq => rw [heq]

theorem passes_revise (h : Handle) (c : Connection) {id : AnswerId} (f : Message → Message)
    (stored : c.books.Stored → (c.revise id f).books.Stored)
    (other : ∀ a, c.answers.get? id = some a → id = h.id → a.call ≠ h.call) :
    Passes h c (c.revise id f) := by
  unfold revise at stored ⊢
  split at stored
  · exact passes_quiet h rfl
  · next a ha =>
      split at stored
      · exact passes_quiet h rfl
      · next e hopen =>
          have hmsg : a.message = some e := ((a.openReturn_eq_ok_iff id e).1 hopen).2
          exact .of_put ha hmsg (other a ha) stored rfl rfl rfl

end Connection

end Callee
