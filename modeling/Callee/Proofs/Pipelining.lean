import Callee.Proofs.Addressing
import Callee.Proofs.Forwarding
import Callee.Proofs.Ledger
import Callee.Proofs.Polling
import Mathlib.Data.List.Induction

set_option autoImplicit false

/-! # The receiver of an answer

An answer has a slot for the receiver of its pipelined calls. Three things write to it: a receiver is
installed, the end of the connection takes it away, and so does the completion of the call
(`KeepsSlots`). While the call is running its answer therefore has the receiver that was installed last,
unless the connection came to its end since (`caller_after`); once it has completed the answer has none,
and gets none (`Reachable.idle`).

`pipelines_after` puts this together with what a forwarded call comes to: which receiver is handed which
call, and on whose account. -/

namespace Callee

/-- What becomes of a record where no receiver is installed. `broke` says whether the connection came to its
    end meanwhile. -/
structure Slot (broke : Prop) (a b : Answer) : Prop where
  call : b.call = a.call
  ready : a.state.resultsReady = true → b.state.resultsReady = true
  caller : b.caller = a.caller ∨ b.caller = none
  closes : b.state.resultsReady = true → a.state.resultsReady = true ∨ b.caller = none
  kept : ¬ broke → b.state.resultsReady = false → b.caller = a.caller
  taken : broke → b.caller = none

namespace Slot

variable {p q r : Prop} {a b d : Answer}

theorem of_same (hcall : b.call = a.call) (hready : b.state.resultsReady = a.state.resultsReady)
    (hcaller : b.caller = a.caller) : Slot False a b where
  call := hcall
  ready h := hready.trans h
  caller := Or.inl hcaller
  closes h := Or.inl (hready ▸ h)
  kept _ _ := hcaller
  taken h := h.elim

theorem of_complete (hcall : b.call = a.call) (hready : b.state.resultsReady = true)
    (hcaller : b.caller = none) : Slot False a b where
  call := hcall
  ready _ := hready
  caller := Or.inr hcaller
  closes _ := Or.inr hcaller
  kept _ h := absurd (hready.symm.trans h) (by simp)
  taken h := h.elim

theorem trans (h : Slot p a b) (h' : Slot q b d) (hr : r ↔ p ∨ q) : Slot r a d where
  call := h'.call.trans h.call
  ready hready := h'.ready (h.ready hready)
  caller := by
    rcases h'.caller with hsame | hnone
    · exact h.caller.imp hsame.trans hsame.trans
    · exact Or.inr hnone
  closes hready := by
    rcases h'.closes hready with hready | hnone
    · rcases h.closes hready with hready | hnone
      · exact Or.inl hready
      · exact Or.inr (h'.caller.elim (fun hsame => hsame.trans hnone) id)
    · exact Or.inr hnone
  kept hno hopen := by
    have hopen' : b.state.resultsReady = false := by
      cases hready : b.state.resultsReady with
      | false => rfl
      | true => exact absurd ((h'.ready hready).symm.trans hopen) (by simp)
    exact (h'.kept (fun hq => hno (hr.2 (Or.inr hq))) hopen).trans
      (h.kept (fun hp => hno (hr.2 (Or.inl hp))) hopen')
  taken hbroke := by
    rcases hr.1 hbroke with hp | hq
    · exact h'.caller.elim (fun hsame => hsame.trans (h.taken hp)) id
    · exact h'.taken hq

end Slot

namespace Connection

/-! ## What writes to the slot -/

/-- The connection came to its end between one point and a later one. -/
def Broke (c c' : Connection) : Prop := c.link = .up ∧ c'.link ≠ .up

/-- Records keep their receiver, but for those that complete and for the end of the connection. -/
structure KeepsSlots (c c' : Connection) : Prop where
  calls : c.nextCall ≤ c'.nextCall
  link : c'.link = .up → c.link = .up
  records : ∀ id b, c'.answers.get? id = some b →
    (∃ a, c.answers.get? id = some a ∧ Slot (c.Broke c') a b) ∨ c.nextCall ≤ b.call ∧ b.caller = none

namespace KeepsSlots

variable {c c' c'' : Connection}

theorem trans (h : c.KeepsSlots c') (h' : c'.KeepsSlots c'') : c.KeepsSlots c'' where
  calls := Nat.le_trans h.calls h'.calls
  link hup := h.link (h'.link hup)
  records id d hd := by
    -- what is broken stays so, so the end came on the first part of the way or on the second
    have hbroke : c.Broke c'' ↔ c.Broke c' ∨ c'.Broke c'' := by
      constructor
      · rintro ⟨hup, hdown⟩
        rcases Classical.em (c'.link = .up) with hup' | hdown'
        · exact Or.inr ⟨hup', hdown⟩
        · exact Or.inl ⟨hup, hdown'⟩
      · rintro (⟨hup, hdown⟩ | ⟨hup, hdown⟩)
        · exact ⟨hup, fun hup' => hdown (h'.link hup')⟩
        · exact ⟨h.link hup, hdown⟩
    rcases h'.records id d hd with ⟨b, hb, hslot'⟩ | ⟨hnew, hnone⟩
    · rcases h.records id b hb with ⟨a, ha, hslot⟩ | ⟨hnew, hnone⟩
      · exact Or.inl ⟨a, ha, hslot.trans hslot' hbroke⟩
      · exact Or.inr ⟨hslot'.call ▸ hnew, hslot'.caller.elim (fun hsame => hsame.trans hnone) fun h => h⟩
    · exact Or.inr ⟨Nat.le_trans h.calls hnew, hnone⟩

theorem slot_of_link {a b : Answer} (hlink : c'.link = c.link) (h : Slot False a b) :
    Slot (c.Broke c') a b := by
  have hnot : c.Broke c' ↔ False := iff_false_intro fun hbroke => hbroke.2 (hlink.trans hbroke.1)
  rwa [hnot]

theorem of_eq (hanswers : c'.answers = c.answers) (hlink : c'.link = c.link)
    (hcalls : c'.nextCall = c.nextCall) : c.KeepsSlots c' where
  calls := Nat.le_of_eq hcalls.symm
  link hup := hlink.symm.trans hup
  records _ b hb := Or.inl ⟨b, hanswers ▸ hb, slot_of_link hlink (.of_same rfl rfl rfl)⟩

/-- One record is replaced, or leaves the table. -/
theorem replace {id : AnswerId} {a b : Answer} (ha : c.answers.get? id = some a) (hslot : Slot False a b)
    (hanswers : c'.answers = c.answers.insert id b ∨ c'.answers = c.answers.erase id)
    (hlink : c'.link = c.link) (hcalls : c'.nextCall = c.nextCall) : c.KeepsSlots c' where
  calls := Nat.le_of_eq hcalls.symm
  link hup := hlink.symm.trans hup
  records j x hx := by
    refine Or.inl ?_
    rcases Table.get?_of_replaced hanswers hx with ⟨rfl, rfl⟩ | ⟨-, hx⟩
    · exact ⟨a, ha, slot_of_link hlink hslot⟩
    · exact ⟨x, hx, slot_of_link hlink (.of_same rfl rfl rfl)⟩

/-- The return of an answer is worked on. -/
theorem of_rewrite {id : AnswerId} (h : c' = c ∨ ∃ a e ms, c.answers.get? id = some a ∧
    a.message ≠ none ∧ c' = { c with
      messages := ms, answers := c.answers.insert id { a with message := some e } }) :
    c.KeepsSlots c' := by
  rcases h with rfl | ⟨a, e, ms, ha, -, rfl⟩
  · exact .of_eq rfl rfl rfl
  · have hslot : Slot False a { a with message := some e } := .of_same rfl rfl rfl
    exact .replace ha hslot (Or.inl rfl) rfl rfl

end KeepsSlots

theorem slots_rule : PlainRule KeepsSlots where
  trans h h' := h.trans h'
  quiet h := .of_eq (congrArg Books.answers h) (congrArg Books.link h) (congrArg Books.nextCall h)
  ends c id := by
    cases ha : c.answers.get? id with
    | none =>
        rw [c.endReturn_of_none ha]
        exact .of_eq rfl rfl rfl
    | some a =>
        obtain ⟨hs, heq⟩ := c.endReturn_shape ha
        have hslot : Slot False a a.markReturnSent := .of_same rfl rfl rfl
        rw [heq]
        exact .replace ha hslot (answers_putAnswer _ id _) rfl rfl
  admits c id token := by
    cases ha : c.answers.get? id with
    | some a =>
        rw [c.newAnswer_of_live token ha]
        exact .of_eq rfl rfl rfl
    | none =>
        obtain ⟨admission, ms, hs, heq, -⟩ := c.newAnswer_shape token ha
        rw [heq]
        refine ⟨Nat.le_succ _, fun hup => hup, fun j b hb => ?_⟩
        rw [Table.get?_insert] at hb
        split at hb
        · obtain rfl := Option.some.inj hb
          exact Or.inr ⟨Nat.le_refl _, rfl⟩
        · exact Or.inl ⟨b, hb, KeepsSlots.slot_of_link rfl (.of_same rfl rfl rfl)⟩
  breaks c e := by
    rcases c.beginDisconnect_shape e with ⟨heq, -⟩ | ⟨hup, ms, hs, p, heq, -⟩
    · rw [heq]
      exact .of_eq rfl rfl rfl
    · rw [heq]
      refine ⟨Nat.le_refl _, fun hup => absurd hup (by simp [breakLink]), fun id b hb => ?_⟩
      have hget : (c.answers.mapValues fun a => { a with caller := none }).get? id = some b := hb
      rw [Table.get?_mapValues] at hget
      obtain ⟨a, ha, rfl⟩ := Option.map_eq_some_iff.1 hget
      have hbroke : c.Broke { c.breakLink e with messages := ms, history := hs } :=
        ⟨c.isDown_eq_false_iff.1 hup, by simp [breakLink]⟩
      exact Or.inl ⟨a, ha, rfl, fun h => h, Or.inr rfl, Or.inl, fun hno => absurd hbroke hno,
        fun _ => rfl⟩
  works _ h := .of_eq (congrArg Books.answers h) (congrArg Books.link h) (congrArg Books.nextCall h)
  cancels c id := by
    cases ha : c.answers.get? id with
    | none =>
        rw [c.cancelReturn_of_none ha]
        exact .of_eq rfl rfl rfl
    | some a =>
        obtain ⟨hs, heq⟩ := c.cancelReturn_shape ha
        have hslot : Slot False a (a.complete (some .callCanceled)).markReturnSent :=
          .of_complete rfl rfl rfl
        rw [heq]
        exact .replace ha hslot (answers_putAnswer _ id _) rfl rfl
  allocates c id size := .of_rewrite (c.allocateResults_shape id size)
  boots c id cap := .of_rewrite (c.setBootstrap_shape id cap)
  edits c ref change := .of_eq rfl rfl rfl

theorem slots_beginReturn (c : Connection) (id : AnswerId) (result : Except Error Unit) :
    c.KeepsSlots (c.beginReturn id result).2 := by
  cases ha : c.answers.get? id with
  | none =>
      rw [c.beginReturn_of_none result ha]
      exact .of_eq rfl rfl rfl
  | some a =>
      obtain ⟨begun, ms, x, hs, p, error, exports, results, heq⟩ := c.beginReturn_record ha result
      have hslot : Slot False a { a.complete error with exports := exports, results := results } :=
        .of_complete rfl rfl rfl
      rw [heq]
      exact .replace ha hslot (Or.inl rfl) rfl rfl

theorem slots_finish (c : Connection) (id : AnswerId) (releaseCaps : Bool) :
    c.KeepsSlots (c.finish id releaseCaps) := by
  cases ha : c.answers.get? id with
  | none =>
      rw [c.finish_of_none releaseCaps ha]
      exact .of_eq rfl rfl rfl
  | some a =>
      obtain ⟨hs, ts, heq⟩ := c.finish_shape releaseCaps ha
      have hslot : Slot False a (a.markFinishReceived releaseCaps) := .of_same rfl rfl rfl
      rw [heq]
      exact .replace ha hslot (answers_putAnswer _ id _) rfl rfl

/-- Nothing but the installation of a receiver puts one into a slot. -/
theorem slots_step (c : Connection) {action : Action}
    (hne : ∀ id name, action ≠ .setPipeline id name) : c.KeepsSlots (c.step action).2 := by
  have htransfer : c.KeepsSlots (c.transfer action) :=
    c.transfer_cases action (.of_eq rfl rfl rfl) c.slots_beginReturn c.slots_finish
  exact htransfer.trans (slots_rule.step_of_ne c hne)

/-! ## Installing a receiver -/

/-- The receiver that an action installs on the answer of a call, if it does. -/
def installs (c : Connection) (call : CallId) : Action → Option CallerName
  | .setPipeline id name =>
      match c.answers.get? id with
      | some a =>
          if a.call = call ∧ a.state.resultsReady = false ∧ c.callers.contains name = true then some name
          else none
      | none => none
  | _ => none

/-- Either a receiver is installed on an answer that is open, or nothing happens. -/
theorem step_setPipeline (c : Connection) (id : AnswerId) (name : CallerName) :
    ((c.step (.setPipeline id name)).2 = c ∧
      ∀ call, c.installs call (.setPipeline id name) = none) ∨
    ∃ a, c.answers.get? id = some a ∧ a.state.resultsReady = false ∧
      (c.step (.setPipeline id name)).2 =
        { c with answers := c.answers.insert id { a with caller := some name } } ∧
      ∀ call, c.installs call (.setPipeline id name) = if a.call = call then some name else none := by
  cases hin : c.callers.contains name with
  | false =>
      refine Or.inl ⟨by simp [step, hin], fun call => ?_⟩
      simp only [installs, hin]
      split <;> simp
  | true =>
      cases ha : c.answers.get? id with
      | none => exact Or.inl ⟨by simp [step, hin, setPipeline, ha], fun call => by simp [installs, ha]⟩
      | some a =>
          cases hready : a.state.resultsReady with
          | true =>
              refine Or.inl ⟨by simp [step, hin, setPipeline, ha, hready], fun call => ?_⟩
              simp [installs, ha, hready]
          | false =>
              refine Or.inr ⟨a, rfl, hready, by simp [step, hin, setPipeline, ha, hready], fun call => ?_⟩
              simp [installs, ha, hready, hin]

/-- An answer whose results are there has no receiver. -/
theorem Reachable.idle {c : Connection} (hc : Reachable c) {id : AnswerId} {a : Answer}
    (ha : c.answers.get? id = some a) (hready : a.state.resultsReady = true) : a.caller = none := by
  induction hc generalizing id a with
  | initial options => exact absurd ha (by simp [Connection.initial])
  | @step c action _ ih =>
      by_cases hset : ∃ j name, action = .setPipeline j name
      · obtain ⟨j, name, rfl⟩ := hset
        rcases c.step_setPipeline j name with ⟨heq, -⟩ | ⟨b, hb, hopen, heq, -⟩
        · rw [heq] at ha
          exact ih ha hready
        · rw [heq, Table.get?_insert] at ha
          split at ha
          · obtain rfl := Option.some.inj ha
            exact absurd (hopen.symm.trans hready) (by simp)
          · exact ih ha hready
      · have hne : ∀ j name, action ≠ .setPipeline j name := fun j name he => hset ⟨j, name, he⟩
        rcases (c.slots_step hne).records id a ha with ⟨b, hb, hslot⟩ | ⟨-, hnone⟩
        · rcases hslot.closes hready with hready | hnone
          · exact hslot.caller.elim (fun hsame => hsame.trans (ih hb hready)) fun hnone => hnone
          · exact hnone
        · exact hnone

theorem Reachable.open_of_caller {c : Connection} (hc : Reachable c) {id : AnswerId} {a : Answer}
    {name : CallerName} (ha : c.answers.get? id = some a) (hcaller : a.caller = some name) :
    a.state.resultsReady = false := by
  cases hready : a.state.resultsReady with
  | false => rfl
  | true => exact absurd (hcaller.symm.trans (hc.idle ha hready)) (by simp)

/-! ## The receiver installed last -/

instance (c c' : Connection) : Decidable (c.Broke c') :=
  inferInstanceAs (Decidable (_ ∧ _))

/-- What an action writes into the slot of the answer of a call: a receiver that it installs, or nobody
    when it brings the connection to its end. -/
def slotWrites (call : CallId) (c : Connection) (action : Action) : List (Option CallerName) :=
  match c.installs call action with
  | some name => [some name]
  | none => if c.Broke (c.step action).2 then [none] else []

/-- The receiver that a run installed last on the answer of a call, unless the connection came to its end
    since. -/
def lastInstalled (options : Options) (actions : List Action) (call : CallId) : Option CallerName :=
  ((along (slotWrites call) (initial options) actions).getLast?).join

theorem lastInstalled_append (options : Options) (actions : List Action) (action : Action)
    (call : CallId) : lastInstalled options (actions ++ [action]) call =
      match slotWrites call ((initial options).after actions) action with
      | [] => lastInstalled options actions call
      | w :: _ => w := by
  have halong : along (slotWrites call) ((initial options).after actions) [action] =
      slotWrites call ((initial options).after actions) action := List.append_nil _
  unfold lastInstalled
  rw [along_append, halong, List.getLast?_append]
  unfold slotWrites
  split
  · rfl
  · split <;> rfl

theorem slotWrites_of_none {c : Connection} {call : CallId} {action : Action}
    (h : c.installs call action = none) :
    slotWrites call c action = if c.Broke (c.step action).2 then [none] else [] := by
  unfold slotWrites
  rw [h]

theorem slotWrites_of_link {c : Connection} {call : CallId} {action : Action}
    (h : c.installs call action = none) (hlink : (c.step action).2.link = c.link) :
    slotWrites call c action = [] := by
  rw [slotWrites_of_none h, if_neg]
  rintro ⟨hup, hdown⟩
  exact hdown (hlink.trans hup)

theorem installs_of_new {c : Connection} (hc : Reachable c) {call : CallId} (hnew : c.nextCall ≤ call)
    (action : Action) : c.installs call action = none := by
  unfold installs
  split
  · split
    · next a ha =>
        refine if_neg ?_
        rintro ⟨hcall, -⟩
        exact absurd (hc.call_lt ha) (Nat.not_lt_of_le (hcall ▸ hnew))
    · rfl
  · rfl

/-- What is in the slot after a step was written by it, or was there before. -/
theorem caller_step {c : Connection} (hc : Reachable c) (action : Action) {id : AnswerId} {b : Answer}
    (hb : (c.step action).2.answers.get? id = some b) (hopen : b.state.resultsReady = false)
    {last : Option CallerName} (hnew : c.nextCall ≤ b.call → last = none)
    (hold : ∀ a, c.answers.get? id = some a → a.call = b.call → a.state.resultsReady = false →
      a.caller = last) :
    b.caller = match slotWrites b.call c action with
      | [] => last
      | w :: _ => w := by
  by_cases hset : ∃ j name, action = .setPipeline j name
  · obtain ⟨j, name, rfl⟩ := hset
    rcases c.step_setPipeline j name with ⟨heq, hnone⟩ | ⟨a, ha, hopen', heq, hins⟩
    · rw [slotWrites_of_link (hnone b.call) (by rw [heq])]
      rw [heq] at hb
      exact hold b hb rfl hopen
    · have hget := hb
      rw [heq, Table.get?_insert] at hget
      split at hget
      · obtain rfl := Option.some.inj hget
        unfold slotWrites
        rw [hins, if_pos rfl]
      · next hj =>
          -- the receiver was installed on the answer of another call
          have hne : a.call ≠ b.call := fun hcall => hj (hc.record_unique ha hget hcall.symm).1
          rw [slotWrites_of_link ((hins b.call).trans (if_neg hne)) (by rw [heq])]
          exact hold b hget rfl hopen
  · have hne : ∀ j name, action ≠ .setPipeline j name := fun j name he => hset ⟨j, name, he⟩
    have hnone : c.installs b.call action = none := by
      unfold installs
      split
      · next j name => exact absurd rfl (hne j name)
      · rfl
    rw [slotWrites_of_none hnone]
    rcases (c.slots_step hne).records id b hb with ⟨a, ha, hslot⟩ | ⟨hcall, hempty⟩
    · by_cases hbroke : c.Broke (c.step action).2
      · rw [if_pos hbroke]
        exact hslot.taken hbroke
      · rw [if_neg hbroke]
        have hopen' : a.state.resultsReady = false := by
          cases hready : a.state.resultsReady with
          | false => rfl
          | true => exact absurd ((hslot.ready hready).symm.trans hopen) (by simp)
        exact (hslot.kept hbroke hopen).trans (hold a ha hslot.call.symm hopen')
    · rw [hempty, hnew hcall]
      by_cases hbroke : c.Broke (c.step action).2
      · rw [if_pos hbroke]
      · rw [if_neg hbroke]

theorem lastInstalled_of_new (options : Options) (actions : List Action) {call : CallId}
    (hnew : ((initial options).after actions).nextCall ≤ call) :
    lastInstalled options actions call = none := by
  induction actions using List.reverseRecOn with
  | nil => rfl
  | append_singleton actions action ih =>
      have hc := (Reachable.initial options).after actions
      rw [after_append] at hnew
      -- on an answer that is not there nothing is installed: all that is ever written is nobody
      have hbefore := Nat.le_trans (nextCall_le_after hc [action]) hnew
      rw [lastInstalled_append, slotWrites_of_none (installs_of_new hc hbefore action)]
      by_cases hbroke : ((initial options).after actions).Broke
          (((initial options).after actions).step action).2
      · rw [if_pos hbroke]
      · rw [if_neg hbroke]
        exact ih hbefore

/-- As long as its call is running, an answer has the receiver that was installed last. -/
theorem caller_after (options : Options) (actions : List Action) {id : AnswerId} {a : Answer}
    (ha : ((initial options).after actions).answers.get? id = some a)
    (hopen : a.state.resultsReady = false) : a.caller = lastInstalled options actions a.call := by
  induction actions using List.reverseRecOn generalizing id a with
  | nil => exact absurd ha (by simp [Connection.initial])
  | append_singleton actions action ih =>
      have hc := (Reachable.initial options).after actions
      rw [after_append] at ha
      rw [lastInstalled_append]
      refine caller_step hc action ha hopen (lastInstalled_of_new options actions) ?_
      intro b hb hcall hopen'
      exact (ih hb hopen').trans (congrArg _ hcall)

/-- What was installed last stands, and a connection that comes to its end takes it away. -/
example :
    let run := [.newCaller "first" .hold, .newCaller "second" .acknowledge, .newAnswer 1 "call",
      .setPipeline 1 "first", .setPipeline 1 "second"]
    lastInstalled {} run 0 = some "second" ∧
      lastInstalled {} (run ++ [.disconnect (.external .failed "bye"), .poll 0]) 0 = none := by
  decide +kernel

/-! ## From the completion of a call on -/

/-- The completion of a call begins, or the call is given up. -/
inductive Completes (c : Connection) (h : Handle) : Action → Prop
  | polled {t : TaskId} {result : Except Error Unit} {guard : Option Token}
      (found : c.tasks.get? t = some ⟨.sendReturn h (.unbegun result), guard⟩) : Completes c h (.poll t)
  | dropped {t : TaskId} {result : Except Error Unit} {guard : Option Token}
      (found : c.tasks.get? t = some ⟨.sendReturn h (.unbegun result), guard⟩) :
      Completes c h (.dropTask t)
  | abandoned (held : c.holds h = true) : Completes c h (.dropHandle h)

theorem closed_of_completes {c : Connection} (hc : Reachable c) {h : Handle} {action : Action}
    (hcompletes : c.Completes h action) : (c.step action).2.Closed h.call := by
  cases hcompletes with
  | @polled t result guard found =>
      cases hlive : guard.any c.isCanceled with
      | false => exact closed_of_poll hc found hlive rfl
      | true =>
          rw [step_poll_of_canceled found hlive]
          exact closed_of_dropTask hc found rfl
  | @dropped t result guard found =>
      rw [step_dropTask_of_get? found]
      exact closed_of_dropTask hc found rfl
  | abandoned held => exact closed_of_dropHandle hc held

/-- The answer of a call is shut to pipelined calls. -/
structure ShutTo (c : Connection) (call : CallId) : Prop where
  noCaller : ∀ id a, c.answers.get? id = some a → a.call = call →
    a.state.resultsReady = true ∧ a.caller = none
  /-- No receiver is installed on it. -/
  noInstall : ∀ id a name, c.answers.get? id = some a → a.call = call →
    (c.step (.setPipeline id name)).2 = c
  /-- Nobody is handed a call on its account. -/
  noDelivery : ∀ id p, ∀ d ∈ c.deliveriesOn id p, d.owner ≠ call

theorem Closed.not_owner {c : Connection} {call : CallId} (h : c.Closed call) (hc : Reachable c)
    {depth : Nat} {id : AnswerId} {p : PipelinedCall} {d : Delivery}
    (hd : d ∈ deliveriesWithin depth c id p) : d.owner ≠ call := by
  intro howner
  obtain ⟨j, a, ha, hcaller, hcall⟩ := answer_of_deliveriesWithin hd
  have hready := h.2 j a ha (hcall.trans howner)
  exact absurd (hready.symm.trans (hc.open_of_caller ha hcaller)) (by simp)

theorem Closed.shutTo {c : Connection} {call : CallId} (h : c.Closed call) (hc : Reachable c) :
    c.ShutTo call where
  noCaller id a ha hcall := ⟨h.2 id a ha hcall, hc.idle ha (h.2 id a ha hcall)⟩
  noInstall id a name ha hcall := by
    rcases c.step_setPipeline id name with ⟨heq, -⟩ | ⟨b, hb, hopen, -⟩
    · exact heq
    · obtain rfl := Option.some.inj (ha.symm.trans hb)
      exact absurd ((h.2 id a ha hcall).symm.trans hopen) (by simp)
  noDelivery id p d hd := h.not_owner hc hd

/-! ## All runs -/

/-- How calls are pipelined over a run. The connection `d` is the one that the run comes to or, where
    receivers forward calls, one that differs from it in its dealings only. -/
structure Pipelines (options : Options) (actions : List Action) : Prop where
  /-- An answer whose results are there has no receiver. -/
  idle : ∀ id a, ((initial options).after actions).answers.get? id = some a →
    a.state.resultsReady = true → a.caller = none
  /-- When its completion begins an answer is shut to pipelined calls, for good. -/
  shut : ∀ h action more, ((initial options).after actions).Completes h action →
    ((((initial options).after actions).step action).2.after more).ShutTo h.call
  /-- A call is pipelined exactly if a receiver is installed on its answer, and the answer is open. -/
  window : ∀ d : Connection, d.books = ((initial options).after actions).books → ∀ id p,
    (d.forward id p).1 = .ok .pipelined ↔ ∃ a, d.answers.get? id = some a ∧
      a.state.resultsReady = false ∧ lastInstalled options actions a.call ≠ none
  /-- It is handed then, as it is and once, to the receiver that was installed last; what the receiver
      forwards has a lower question id. Each delivery counts for the call that it is on account of until it
      is acknowledged. -/
  hands : ∀ d : Connection, d.books = ((initial options).after actions).books → ∀ id p,
    (d.forward id p).1 = .ok .pipelined → ∃ a name nested,
      d.answers.get? id = some a ∧ a.state.resultsReady = false ∧
      lastInstalled options actions a.call = some name ∧
      d.deliveriesOn id p = ⟨name, a.call, p⟩ :: nested ∧
      (∀ x ∈ nested, x.call.questionId < p.questionId) ∧
      (d.forward id p).2.handedCalls =
        d.handedCalls ++ (d.deliveriesOn id p).map (fun x => (x.caller, x.call)) ∧
      ∀ k, ((d.forward id p).2.deliveriesOf k).inFlight +
          ((d.unkept (d.deliveriesOn id p)).map Delivery.owner).count k =
        (d.deliveriesOf k).inFlight + ((d.deliveriesOn id p).map Delivery.owner).count k
  /-- A call that is not pipelined is handed to nobody, and nothing changes. -/
  keeps : ∀ (d : Connection) id p, (d.forward id p).1 ≠ .ok .pipelined →
    (d.forward id p).2 = d ∧ d.deliveriesOn id p = []

/-- On every run calls are pipelined as long as the call that they are addressed to is running, and no
    longer. -/
theorem pipelines_after (options : Options) (actions : List Action) : Pipelines options actions := by
  have hc := (Reachable.initial options).after actions
  constructor
  case idle =>
    intro id a ha hready
    exact hc.idle ha hready
  case shut =>
    intro h action more hcompletes
    have hclosed := closed_of_completes hc hcompletes
    have hstep : Reachable (((initial options).after actions).step action).2 := .step action hc
    exact (hclosed.after hstep more).shutTo (hstep.after more)
  case window =>
    intro d hbooks id p
    have hanswers : d.answers = ((initial options).after actions).answers := congrArg Books.answers hbooks
    rw [Connection.forward, forwardWithin_eq_pipelined_iff, hanswers]
    constructor
    · rintro ⟨a, name, ha, hcaller⟩
      have hopen := hc.open_of_caller ha hcaller
      refine ⟨a, ha, hopen, ?_⟩
      rw [← caller_after options actions ha hopen, hcaller]
      exact Option.some_ne_none name
    · rintro ⟨a, ha, hopen, hsome⟩
      rw [← caller_after options actions ha hopen] at hsome
      obtain ⟨name, hcaller⟩ := Option.ne_none_iff_exists'.1 hsome
      exact ⟨a, name, ha, hcaller⟩
  case hands =>
    intro d hbooks id p hpipelined
    obtain ⟨a, name, nested, ha, hcaller, hmade, hlower⟩ := deliveriesOn_of_pipelined hpipelined
    have hanswers : d.answers = ((initial options).after actions).answers := congrArg Books.answers hbooks
    have hopen := hc.open_of_caller (hanswers ▸ ha) hcaller
    have hlast := caller_after options actions (hanswers ▸ ha) hopen
    have heffect := d.forward_handsOn id p
    refine ⟨a, name, nested, ha, hopen, hlast.symm.trans hcaller, hmade, hlower, heffect.handed, ?_⟩
    intro k
    rw [heffect.inFlight k, Nat.add_assoc, count_kept_add_count_unkept]
  case keeps =>
    intro d id p h
    exact forwardWithin_of_not_pipelined h

/-- A run in which the receiver of one answer is replaced by one that forwards calls to another answer. -/
def replacingRun : List Action :=
  [.newCaller "first" .hold, .newCaller "onward" (.forward 2), .newAnswer 1 "a", .newAnswer 2 "b",
    .setPipeline 1 "first", .setPipeline 1 "onward", .setPipeline 2 "first"]

theorem pipelines_after_replacing :
    let c := (initial {}).after replacingRun
    (c.forward 1 ⟨3, 7, 0, []⟩).1 = .ok .pipelined ∧ lastInstalled {} replacingRun 0 = some "onward" ∧
      c.deliveriesOn 1 ⟨3, 7, 0, []⟩ =
        [⟨"onward", 0, ⟨3, 7, 0, []⟩⟩, ⟨"first", 1, ⟨2, 7, 0, []⟩⟩] ∧
      Pipelines {} replacingRun :=
  ⟨by decide +kernel, by decide +kernel, by decide +kernel, pipelines_after {} replacingRun⟩

end Connection

end Callee
