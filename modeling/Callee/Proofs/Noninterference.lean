import Callee.Proofs.Deeds
import Callee.Proofs.Resolution

set_option autoImplicit false

/-! # Calls do not interfere

What becomes of a call depends on what is done to it and on nothing else: not on the other calls, whose
returns go out by the same way and whose capabilities are exported in the same table. In two runs that do
the same to a call it has the same view (`view?_after`). Its return and the pipelined calls for it are read
off that view (`returned?_of_view?`, `forward_of_view?`), but for the numbers under which capabilities are
exported; these tell capabilities apart by identity in every run (`numbered_of_begins?`).

One thing that the other calls have a say in is how long a record stays in the table. A return that waits
behind another keeps its record there, and a pipelined call that comes after the peer's finish is answered;
without the other call it would come too late (`forwards_apart_after_holdUp`). -/

namespace Callee

/-! ## What is read off a view -/

/-- What comes of a pipelined call for a call with a view. -/
def View.forwarded (id : AnswerId) (call : PipelinedCall) : View → Except Error Forwarded
  | .running (some _) _ => .ok .pipelined
  | .running none _ => .error (.notReady id)
  | .completed (.error e) => .error e
  | .completed (.ok none) => .error (.noResults id)
  | .completed (.ok (some (a, p))) => (a.resolve p call.path).map fun cap => .resolved cap call

/-- What goes out of a return under construction when its call completes, with every export under one id. -/
def Message.sealed? (m : Message) (down : Bool) : Except Error Unit → Option Message
  | .ok () => if down then none else some (m.completed false).unnumbered
  | .error e =>
      match m.writeException e with
      | (.ok (), written) => if down then none else some written.unnumbered
      | (.error _, _) => none

/-- Slots of the results in a message have one export together exactly if the capabilities in them have one
    identity. -/
def Message.NumberedByIdentity (m : Message) : Prop :=
  ∀ payload, m.getResults = .ok payload → ∀ (i j : Nat) (e e' : ExportId),
    payload.capTable[i]? = some (some e) → payload.capTable[j]? = some (some e') →
      ∃ cap cap', m.arena.caps[i]? = some (some cap) ∧ m.arena.caps[j]? = some (some cap') ∧
        (e = e' ↔ cap.identity = cap'.identity)

theorem Exports.numbered_of_described {x : Exports} (hx : x.WF) {m : Message} {payload : Payload}
    (hresults : m.getResults = .ok payload)
    (h : List.Forall₂ x.Describes m.arena.caps payload.capTable) : m.NumberedByIdentity := by
  intro payload' hresults' i j e e' he he'
  obtain rfl := Except.ok.inj (hresults.symm.trans hresults')
  obtain ⟨cap, hcap, hnames⟩ := (slot_of_described h i).2 e he
  obtain ⟨cap', hcap', hnames'⟩ := (slot_of_described h j).2 e' he'
  exact ⟨cap, cap', hcap, hcap', names_eq_iff hx hnames hnames'⟩

/-- A message that names no export has nothing to tell apart. -/
theorem Message.numbered_of_hosted {m : Message} (h : m.hosted = []) : m.NumberedByIdentity := by
  intro payload hresults i j e e' he he'
  rw [hosted_of_results hresults] at h
  have hin : e ∈ payload.capTable.filterMap id :=
    List.mem_filterMap.2 ⟨some e, List.mem_of_getElem? he, rfl⟩
  rw [h] at hin
  exact absurd hin (by simp)

/-- What is written out of a return that names no export tells capabilities apart by identity. -/
theorem Exports.numbered_writeResults {x : Exports} (hx : x.WF) {m : Message} (hopen : m.hosted = []) :
    (x.writeResults m false).message.NumberedByIdentity := by
  rcases x.writeResults_spec hx m with ⟨-, -, hwork⟩ | ⟨ids, hids, hwritten⟩
  · exact Message.numbered_of_hosted (hwork.hosted hopen)
  · obtain ⟨payload, hresults, hdescribed⟩ := described_writeResults hx hids
    exact numbered_of_described hwritten.added.wf hresults hdescribed

theorem Work.completion?_eq_some_iff {h : Handle} {work : Work} {result : Except Error Unit} :
    work.completion? h = some result ↔ work = .sendReturn h (.unbegun result) := by
  cases work with
  | accept stage => simp [completion?]
  | disconnect e stage => simp [completion?]
  | sendReturn k stage =>
      cases stage with
      | unbegun x =>
          by_cases hk : k = h <;> simp [completion?, hk]
      | sending send f => simp [completion?]
      | draining w => simp [completion?]

namespace Connection

open Books

/-- What comes of a pipelined call is read off the view of the call that it is for. -/
theorem forward_of_view? {c : Connection} (hc : Reachable c) {h : Handle} {v : View}
    (hview : c.view? h = some v) (call : PipelinedCall) :
    (c.forward h.id call).1 = v.forwarded h.id call := by
  obtain ⟨a, ha, -, rfl⟩ := (c.view?_eq_some_iff h v).1 hview
  have hidle : a.state.resultsReady = true → a.caller = none := fun hready => hc.idle ha hready
  unfold forward forwardWithin viewOf
  cases hready : a.state.resultsReady with
  | false =>
      cases hcaller : a.caller with
      | none => simp [route, ha, hcaller, hready, View.forwarded]
      | some name =>
          simp only [route, ha, hcaller, Bool.false_eq_true, if_false, View.forwarded]
          split <;> rfl
  | true =>
      simp only [route, ha, hidle hready, hready, if_true]
      cases a.error with
      | some e => rfl
      | none =>
          cases a.results with
          | none => rfl
          | some r =>
              simp only [Option.map_some, View.forwarded, MessageStore.resolve]
              cases (c.messages.arena r.arena).resolve r.content call.path with
              | error e => rfl
              | ok cap => rfl

/-! ## Returns -/

/-- The return of a call, if the call completes now and there is a return to be sent. -/
def returned? (c : Connection) (id : AnswerId) (result : Except Error Unit) : Option Message :=
  ((c.beginReturn id result).1.bind BegunReturn.envelope).map (c.beginReturn id result).2.messages.message

theorem returned?_of_view? {c : Connection} {h : Handle} {caller : Option CallerName}
    {draft : Option Message} (hview : c.view? h = some (.running caller draft))
    (result : Except Error Unit) : (c.returned? h.id result).map Message.unnumbered =
      draft.bind fun m => m.sealed? c.isDown result := by
  obtain ⟨a, ha, -, -, -, rfl⟩ := running_of_view? hview
  cases hmsg : a.message with
  | none => cases result <;> simp [returned?, beginReturn, ha, hmsg]
  | some e =>
      cases result with
      | ok u =>
          have hwritten := c.exports.unnumbered_writeResults {} (c.messages.message e) c.isDown
          simp only [returned?, beginReturn, ha, hmsg, returnResults, reportAll_shape, Option.map_some,
            Option.bind_some, Message.sealed?]
          cases hdown : c.isDown with
          | true => rfl
          | false =>
              rw [hdown] at hwritten
              exact congrArg some (by rw [MessageStore.message_put]; exact hwritten)
      | error x =>
          simp only [returned?, beginReturn, ha, hmsg, returnError, Option.map_some, Option.bind_some,
            Message.sealed?]
          obtain ⟨written, m⟩ := (c.messages.message e).writeException x
          cases written with
          | error y => rfl
          | ok u =>
              unfold isDown
              cases c.link <;> simp

/-- What a call completes with is written into its return. -/
inductive Seals (c : Connection) (m : Message) : Except Error Unit → Message → Prop
  | results : c.Seals m (.ok ()) (c.exports.writeResults m false).message
  | exception (x : Error) : c.Seals m (.error x) (m.writeException x).2

/-- A return that goes on is the one that the record held, with what the call completes with in it. -/
theorem sealed_of_beginReturn {c : Connection} {id : AnswerId} {result : Except Error Unit} {e : Envelope}
    (hbegun : (c.beginReturn id result).1.bind BegunReturn.envelope = some e) :
    ∃ a d m, c.answers.get? id = some a ∧ a.message = some d ∧ e = (c.messages.put d m).1 ∧
      (c.beginReturn id result).2.messages = (c.messages.put d m).2 ∧
        c.Seals (c.messages.message d) result m := by
  cases ha : c.answers.get? id with
  | none => simp [beginReturn, ha] at hbegun
  | some a =>
      cases hmsg : a.message with
      | none => cases result <;> simp [beginReturn, ha, hmsg] at hbegun
      | some d =>
          cases result with
          | ok u =>
              cases hdown : c.isDown with
              | true => simp [beginReturn, ha, hmsg, returnResults, hdown] at hbegun
              | false =>
                  obtain ⟨hsent, -, hmessages, -⟩ := beginReturn_of_results ha hmsg hdown
                  rw [hsent] at hbegun
                  obtain rfl := Option.some.inj hbegun
                  exact ⟨a, d, _, rfl, hmsg, rfl, hmessages, .results⟩
          | error x =>
              simp only [beginReturn, ha, hmsg, returnError] at hbegun ⊢
              split at hbegun
              · exact absurd hbegun (by simp)
              · dsimp only at hbegun ⊢
                split at hbegun
                · exact absurd hbegun (by simp)
                · obtain rfl := Option.some.inj hbegun
                  exact ⟨a, d, _, rfl, hmsg, rfl, rfl, .exception x⟩

/-- The return that an action begins for a call, if there is one to be sent. -/
def begins? (h : Handle) (c : Connection) (action : Action) : Option Message :=
  match deeds h c action with
  | [.complete _ result] => c.returned? h.id result
  | _ => none

/-- A call completes by the poll of a task that was to complete it and has yet to begin. -/
theorem poll_of_deeds {c : Connection} {h : Handle} {action : Action} {down : Bool}
    {result : Except Error Unit} (hdeeds : deeds h c action = [.complete down result]) :
    down = c.isDown ∧ ∃ t guard, action = .poll t ∧
      c.tasks.get? t = some ⟨.sendReturn h (.unbegun result), guard⟩ := by
  cases action with
  | poll t =>
      simp only [deeds] at hdeeds
      split at hdeeds
      · exact absurd hdeeds (by simp)
      · next task hget =>
          split at hdeeds
          · next x hcompletes =>
              obtain ⟨work, guard⟩ := task
              obtain rfl := Work.completion?_eq_some_iff.1 hcompletes
              split at hdeeds
              · exact absurd hdeeds (by simp)
              · obtain ⟨rfl, rfl⟩ := Deed.complete.inj (List.cons.inj hdeeds).1
                exact ⟨rfl, t, guard, rfl, hget⟩
          · split at hdeeds <;> exact absurd hdeeds (by simp)
  | dropTask t =>
      simp only [deeds] at hdeeds
      split at hdeeds <;> exact absurd hdeeds (by simp)
  | allocateResults | setBootstrap | edit | setPipeline | dropHandle =>
      simp only [deeds] at hdeeds
      split at hdeeds <;> exact absurd hdeeds (by simp)
  | _ => exact absurd hdeeds (by simp [deeds])

theorem running_of_deeds {c : Connection} (hc : Reachable c) {h : Handle} {action : Action} {down : Bool}
    {result : Except Error Unit} (hdeeds : deeds h c action = [.complete down result]) :
    ∃ caller draft, c.view? h = some (.running caller draft) := by
  obtain ⟨-, t, guard, -, hget⟩ := poll_of_deeds hdeeds
  have hbuilding : c.books.Holds (.task t) h .building := (taskOwes_of_get? hget).trans rfl
  exact exists_running hc hbuilding

/-! ## Numbers -/

/-- The exports in a return tell capabilities apart by identity. -/
theorem numbered_of_returned? {c : Connection} (hc : Reachable c) {id : AnswerId}
    {result : Except Error Unit} {m : Message} (hreturned : c.returned? id result = some m) :
    m.NumberedByIdentity := by
  obtain ⟨e, hbegun, rfl⟩ := Option.map_eq_some_iff.1 hreturned
  obtain ⟨a, d, m, ha, hmsg, rfl, hmessages, hseals⟩ := sealed_of_beginReturn hbegun
  have hopen : (c.messages.message d).hosted = [] := ((hc.reckoning.answers id a ha).unbegun d hmsg).1
  rw [hmessages, MessageStore.message_put]
  cases hseals with
  | results => exact Exports.numbered_writeResults hc.reckoning.exports hopen
  | exception x =>
      have hwork := Message.worked_rule.writeException (c.messages.message d) x
      exact Message.numbered_of_hosted (hwork.hosted hopen)

/-- The exports in a return that begins tell capabilities apart by identity. -/
theorem numbered_of_begins? {c : Connection} (hc : Reachable c) {h : Handle} {action : Action}
    {m : Message} (hbegins : begins? h c action = some m) : m.NumberedByIdentity := by
  unfold begins? at hbegins
  split at hbegins
  · exact numbered_of_returned? hc hbegins
  · exact absurd hbegins (by simp)

/-! ## Two runs -/

/-- A call comes in with an action. -/
def Arrives (c : Connection) (action : Action) (h : Handle) : Prop :=
  h.call = c.nextCall ∧ ((c.step action).2.view? h).isSome = true

instance (c : Connection) (action : Action) (h : Handle) : Decidable (c.Arrives action h) :=
  inferInstanceAs (Decidable (_ ∧ _))

/-- Two connections have to do with the same call, and nothing that comes of it tells them apart. -/
structure Alike (h₁ h₂ : Handle) (c₁ c₂ : Connection) : Prop where
  /-- As long as both have a record of it, the call has the same receiver and the same return under construction in
      both, or it has completed with the same outcome. -/
  view : ∀ v₁ v₂, c₁.view? h₁ = some v₁ → c₂.view? h₂ = some v₂ → v₁ = v₂
  /-- Actions that do the same to the call begin the same return, but for the numbers of exports. -/
  returns : ∀ a₁ a₂, deeds h₁ c₁ a₁ = deeds h₂ c₂ a₂ →
    (begins? h₁ c₁ a₁).map Message.unnumbered = (begins? h₂ c₂ a₂).map Message.unnumbered
  /-- In either return two slots have one number exactly if their capabilities have one identity. -/
  numbered : ∀ a m, begins? h₁ c₁ a = some m ∨ begins? h₂ c₂ a = some m → m.NumberedByIdentity
  /-- A pipelined call for it comes to the same where there is a record of the call in both. -/
  forwards : (c₁.view? h₁).isSome = true → (c₂.view? h₂).isSome = true → ∀ call,
    (c₁.step (.forward h₁.id call)).1 = (c₂.step (.forward h₂.id call)).1
  /-- So it does where there is none under the id in either. -/
  misses : c₁.answers.get? h₁.id = none → c₂.answers.get? h₂.id = none → ∀ call,
    (c₁.step (.forward h₁.id call)).1 = (c₂.step (.forward h₂.id call)).1

theorem reply_forward {c c' : Connection} {id id' : AnswerId} {call : PipelinedCall}
    (h : (c.forward id call).1 = (c'.forward id' call).1) :
    (c.step (.forward id call)).1 = (c'.step (.forward id' call)).1 := by
  simp only [step]
  split <;> next heq => rw [heq] at h; split <;> next heq' => rw [heq'] at h; simp_all

theorem forward_of_none {c : Connection} {id : AnswerId} (ha : c.answers.get? id = none)
    (call : PipelinedCall) : (c.forward id call).1 = .error (.noSuchAnswer id) := by
  unfold forward forwardWithin
  simp [route, ha]

theorem begins?_congr {c₁ c₂ : Connection} (hc₁ : Reachable c₁) (hc₂ : Reachable c₂) {h₁ h₂ : Handle}
    (view : ∀ v₁ v₂, c₁.view? h₁ = some v₁ → c₂.view? h₂ = some v₂ → v₁ = v₂) {a₁ a₂ : Action}
    (hdeeds : deeds h₁ c₁ a₁ = deeds h₂ c₂ a₂) :
    (begins? h₁ c₁ a₁).map Message.unnumbered = (begins? h₂ c₂ a₂).map Message.unnumbered := by
  unfold begins?
  rw [hdeeds]
  split
  · next down result heq =>
      obtain ⟨caller₁, draft₁, hview₁⟩ := running_of_deeds hc₁ (hdeeds.trans heq)
      obtain ⟨caller₂, draft₂, hview₂⟩ := running_of_deeds hc₂ heq
      obtain ⟨-, rfl⟩ := View.running.inj (view _ _ hview₁ hview₂)
      have hdown : c₁.isDown = c₂.isDown :=
        (poll_of_deeds (hdeeds.trans heq)).1.symm.trans (poll_of_deeds heq).1
      rw [returned?_of_view? hview₁, returned?_of_view? hview₂, hdown]
  · rfl

/-- What is shown of a call after it came in comes from its reserved return by what was done to it since. -/
theorem view?_of_arrives {c : Connection} (hc : Reachable c) {h : Handle} {first : Action}
    (arrives : c.Arrives first h) (more : List Action) {v : View}
    (hview : (c.after (first :: more)).view? h = some v) :
    v = (along (deeds h) (c.step first).2 more).foldl View.after (.running none (c.reservation h.id)) := by
  obtain ⟨hcall, hsome⟩ := arrives
  obtain ⟨u, hu⟩ := Option.isSome_iff_exists.1 hsome
  have hnext := Reachable.step first hc
  obtain ⟨a, ha, hown, -⟩ := (view?_eq_some_iff _ h u).1 hu
  have hold : h.call < (c.step first).2.nextCall := hown ▸ hnext.call_lt ha
  obtain ⟨w, hw, rfl⟩ := view?_after hnext hold more hview
  rw [view?_of_new hc (Nat.le_of_eq hcall.symm) hw]

/-- Two runs in which a call comes in with the same return reserved and in which the same is done to it,
    whatever else is done in either, have the same to show of the call and the same coming of it. -/
theorem Reachable.alike {c₁ c₂ : Connection} (hc₁ : Reachable c₁) (hc₂ : Reachable c₂) {h₁ h₂ : Handle}
    {first₁ first₂ : Action} (arrives₁ : c₁.Arrives first₁ h₁) (arrives₂ : c₂.Arrives first₂ h₂)
    (sameId : h₁.id = h₂.id) (reserved : c₁.reservation h₁.id = c₂.reservation h₂.id)
    {more₁ more₂ : List Action} (done : along (deeds h₁) (c₁.step first₁).2 more₁ =
      along (deeds h₂) (c₂.step first₂).2 more₂) :
    Alike h₁ h₂ (c₁.after (first₁ :: more₁)) (c₂.after (first₂ :: more₂)) := by
  have hd₁ := hc₁.after (first₁ :: more₁)
  have hd₂ := hc₂.after (first₂ :: more₂)
  have hview : ∀ v₁ v₂, (c₁.after (first₁ :: more₁)).view? h₁ = some v₁ →
      (c₂.after (first₂ :: more₂)).view? h₂ = some v₂ → v₁ = v₂ := by
    intro v₁ v₂ hv₁ hv₂
    rw [view?_of_arrives hc₁ arrives₁ more₁ hv₁, view?_of_arrives hc₂ arrives₂ more₂ hv₂, reserved, done]
  exact {
    view := hview
    returns := fun a₁ a₂ hdeeds => begins?_congr hd₁ hd₂ hview hdeeds
    numbered := fun a m hm => hm.elim (numbered_of_begins? hd₁) (numbered_of_begins? hd₂)
    forwards := fun some₁ some₂ call => by
      obtain ⟨v₁, hv₁⟩ := Option.isSome_iff_exists.1 some₁
      obtain ⟨v₂, hv₂⟩ := Option.isSome_iff_exists.1 some₂
      refine reply_forward ?_
      rw [forward_of_view? hd₁ hv₁, forward_of_view? hd₂ hv₂, hview v₁ v₂ hv₁ hv₂, sameId]
    misses := fun none₁ none₂ call => by
      refine reply_forward ?_
      rw [forward_of_none none₁, forward_of_none none₂, sameId] }

/-- A run in which another call exports a capability before a call comes in. -/
def crowdedRun : List Action :=
  [.newAnswer 5 "other", .setBootstrap ⟨5, 0⟩ ⟨"lamp", 3⟩, .sendReturn ⟨5, 0⟩ (.ok ()) none, .poll 0]

/-- What is done in either run once the call is there. -/
def buildingRun (h : Handle) : List Action :=
  [.setBootstrap h ⟨"door", 7⟩, .sendReturn h (.ok ()) none]

theorem alike_after_crowding :
    ((initial {}).after crowdedRun).Arrives (.newAnswer 1 "one") ⟨1, 1⟩ ∧
      (initial {}).Arrives (.newAnswer 1 "one") ⟨1, 0⟩ ∧
      ((initial {}).after crowdedRun).reservation 1 = (initial {}).reservation 1 ∧
      along (deeds ⟨1, 1⟩) (((initial {}).after crowdedRun).step (.newAnswer 1 "one")).2
          (buildingRun ⟨1, 1⟩) =
        along (deeds ⟨1, 0⟩) ((initial {}).step (.newAnswer 1 "one")).2 (buildingRun ⟨1, 0⟩) ∧
      Alike ⟨1, 1⟩ ⟨1, 0⟩
        (((initial {}).after crowdedRun).after (.newAnswer 1 "one" :: buildingRun ⟨1, 1⟩))
        ((initial {}).after (.newAnswer 1 "one" :: buildingRun ⟨1, 0⟩)) := by
  have arrives₁ : ((initial {}).after crowdedRun).Arrives (.newAnswer 1 "one") ⟨1, 1⟩ := by
    decide +kernel
  have arrives₂ : (initial {}).Arrives (.newAnswer 1 "one") ⟨1, 0⟩ := by decide +kernel
  have reserved : ((initial {}).after crowdedRun).reservation 1 = (initial {}).reservation 1 := by
    decide +kernel
  have done : along (deeds ⟨1, 1⟩) (((initial {}).after crowdedRun).step (.newAnswer 1 "one")).2
      (buildingRun ⟨1, 1⟩) =
        along (deeds ⟨1, 0⟩) ((initial {}).step (.newAnswer 1 "one")).2 (buildingRun ⟨1, 0⟩) := by
    decide +kernel
  have hc := (Reachable.initial {}).after crowdedRun
  exact ⟨arrives₁, arrives₂, reserved, done,
    hc.alike (.initial {}) arrives₁ arrives₂ rfl reserved done⟩

/-- A call whose return waits behind that of another when the peer's finish comes in. -/
def heldUpRun : List Action :=
  [.newAnswer 1 "one", .gateSend, .newAnswer 2 "other", .sendReturn ⟨2, 1⟩ (.ok ()) none, .poll 0,
    .setBootstrap ⟨1, 0⟩ ⟨"door", 7⟩, .sendReturn ⟨1, 0⟩ (.ok ()) none, .poll 1, .finish 1 false]

/-- The same call without the other one. -/
def aloneRun : List Action :=
  [.newAnswer 1 "one", .setBootstrap ⟨1, 0⟩ ⟨"door", 7⟩, .sendReturn ⟨1, 0⟩ (.ok ()) none, .poll 0,
    .finish 1 false]

/-- The record of the call that waits is still there for a pipelined call, that of the other is not. -/
theorem forwards_apart_after_holdUp :
    along (deeds ⟨1, 0⟩) (initial {}) heldUpRun = along (deeds ⟨1, 0⟩) (initial {}) aloneRun ∧
      ((initial {}).after heldUpRun).link = .up ∧ ((initial {}).after aloneRun).link = .up ∧
      (((initial {}).after heldUpRun).step
          (.forward 1 { questionId := 3, interfaceId := 0, methodId := 0, path := [] })).1 =
        .forwarded (.resolved ⟨"door", 7⟩ { questionId := 3, interfaceId := 0, methodId := 0, path := [] }) ∧
      (((initial {}).after aloneRun).step
          (.forward 1 { questionId := 3, interfaceId := 0, methodId := 0, path := [] })).1 =
        .failed (.noSuchAnswer 1) := by
  decide +kernel

end Connection

end Callee
