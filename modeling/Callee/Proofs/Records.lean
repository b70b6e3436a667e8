import Callee.Proofs.Lifecycle
import Callee.Proofs.References

set_option autoImplicit false

/-! # What becomes of a record

An answer in the table of a later connection is one that was there before or belongs to a call that came
in since. A step begins with the completion of a call or with a finish, if it has to do with one
(`record_transfer`), and all else that it does to a record it does in a few ways (`Renews`). `Descends` says
what the two records have in common. Across the operations that move no references a record keeps what it
notes (`keeps_rule`); across a whole step, once its return has begun, it notes the same until that is given
back (`ages_step`). -/

namespace Callee.Connection

open Books

/-! ## How records are rewritten -/

/-- What the operations of a step make of a record, but for the beginning of its return and the peer's finish.
    Only a call of whose record `Q` holds is given up. -/
inductive Rewrites (Q : Answer → Prop) (a : Answer) : Answer → Prop
  | same : Rewrites Q a a
  | marked {b : Answer} (before : Rewrites Q a b) : Rewrites Q a b.markReturnSent
  | canceled {b : Answer} (before : Rewrites Q a b) (known : Q b) :
      Rewrites Q a (b.complete (some .callCanceled)).markReturnSent
  | worked {b : Answer} (before : Rewrites Q a b) (e : Envelope) (holds : b.message ≠ none) :
      Rewrites Q a { b with message := some e }
  | routed {b : Answer} (before : Rewrites Q a b) (name : CallerName) (running : b.state.resultsReady = false) :
      Rewrites Q a { b with caller := some name }
  | cut {b : Answer} (before : Rewrites Q a b) : Rewrites Q a { b with caller := none }

theorem Rewrites.trans {Q : Answer → Prop} {a b d : Answer} (h : Rewrites Q a b) (h' : Rewrites Q b d) :
    Rewrites Q a d := by
  induction h' with
  | same => exact h
  | marked _ ih => exact ih.marked
  | canceled _ known ih => exact ih.canceled known
  | worked _ e holds ih => exact ih.worked e holds
  | routed _ name running ih => exact ih.routed name running
  | cut _ ih => exact ih.cut

/-- The record of a call that has just come in. -/
def IsNew (a : Answer) : Prop :=
  ∃ call token message, a = { call := call, token := token, message := message }

/-- Every record comes from the one that was there, or from that of a call that came in since. -/
def Renews (Q : Answer → Prop) (c c' : Connection) : Prop :=
  c.nextCall ≤ c'.nextCall ∧ ∀ id a', c'.answers.get? id = some a' →
    ∃ a, (c.answers.get? id = some a ∨ c.nextCall ≤ a.call ∧ IsNew a) ∧ Rewrites Q a a'

namespace Renews

variable {Q : Answer → Prop} {c c' c'' : Connection}

theorem of_eq (hanswers : c'.answers = c.answers) (hcalls : c'.nextCall = c.nextCall) : c.Renews Q c' :=
  ⟨Nat.le_of_eq hcalls.symm, fun _ a' h => ⟨a', Or.inl (hanswers ▸ h), .same⟩⟩

theorem trans (h : c.Renews Q c') (h' : c'.Renews Q c'') : c.Renews Q c'' := by
  refine ⟨Nat.le_trans h.1 h'.1, fun id a'' ha'' => ?_⟩
  obtain ⟨a', ha' | ⟨hcall, hnew⟩, hrewrites'⟩ := h'.2 id a'' ha''
  · obtain ⟨a, ha, hrewrites⟩ := h.2 id a' ha'
    exact ⟨a, ha, hrewrites.trans hrewrites'⟩
  · exact ⟨a', Or.inr ⟨Nat.le_trans h.1 hcall, hnew⟩, hrewrites'⟩

/-- One record is replaced, or leaves the table. -/
theorem of_replaced {id : AnswerId} {a a' : Answer} (ha : c.answers.get? id = some a)
    (hrewrites : Rewrites Q a a')
    (hanswers : c'.answers = c.answers.insert id a' ∨ c'.answers = c.answers.erase id)
    (hcalls : c'.nextCall = c.nextCall) : c.Renews Q c' := by
  refine ⟨Nat.le_of_eq hcalls.symm, fun j x hx => ?_⟩
  rcases Table.get?_of_replaced hanswers hx with ⟨rfl, rfl⟩ | ⟨-, hx⟩
  · exact ⟨a, Or.inl ha, hrewrites⟩
  · exact ⟨x, Or.inl hx, .same⟩

end Renews

theorem renews_setPipeline (Q : Answer → Prop) (c : Connection) (id : AnswerId) (name : CallerName) :
    c.Renews Q (c.setPipeline id name) := by
  rcases c.setPipeline_shape id name with h | ⟨a, ha, hopen, h⟩ <;> rw [h]
  · exact .of_eq rfl rfl
  · exact .of_replaced ha (.routed .same name hopen) (Or.inl rfl) rfl

/-- All records are rewritten in these ways only. -/
theorem renews_steady (Q : Answer → Prop) :
    SteadyRule (fun answers id => ∀ a, answers.get? id = some a → Q a) (Renews Q) where
  trans h h' := h.trans h'
  quiet h := .of_eq (congrArg Books.answers h) (congrArg Books.nextCall h)
  works _ h := .of_eq (congrArg Books.answers h) (congrArg Books.nextCall h)
  ends c id := by
    cases ha : c.answers.get? id with
    | none =>
        rw [c.endReturn_of_none ha]
        exact .of_eq rfl rfl
    | some a =>
        obtain ⟨hs, heq⟩ := c.endReturn_shape ha
        rw [heq]
        exact .of_replaced ha (.marked .same) (answers_putAnswer _ id _) rfl
  admits c id token := by
    cases ha : c.answers.get? id with
    | some a =>
        rw [c.newAnswer_of_live token ha]
        exact .of_eq rfl rfl
    | none =>
        obtain ⟨admission, ms, hs, heq, -⟩ := c.newAnswer_shape token ha
        rw [heq]
        refine ⟨Nat.le_succ _, fun j x hx => ?_⟩
        rcases Table.get?_of_replaced (Or.inl rfl) hx with ⟨-, rfl⟩ | ⟨-, hx⟩
        · exact ⟨_, Or.inr ⟨Nat.le_refl _, _, _, _, rfl⟩, .same⟩
        · exact ⟨x, Or.inl hx, .same⟩
  breaks c e := by
    rcases c.beginDisconnect_shape e with ⟨heq, -⟩ | ⟨-, ms, hs, p, heq, -⟩
    · rw [heq]
      exact .of_eq rfl rfl
    · rw [heq]
      refine ⟨Nat.le_refl _, fun id x hx => ?_⟩
      have hget : (c.answers.mapValues fun a => { a with caller := none }).get? id = some x := hx
      rw [Table.get?_mapValues] at hget
      obtain ⟨a, ha, rfl⟩ := Option.map_eq_some_iff.1 hget
      exact ⟨a, Or.inl ha, .cut .same⟩
  cancels c id known := by
    cases ha : c.answers.get? id with
    | none =>
        rw [c.cancelReturn_of_none ha]
        exact .of_eq rfl rfl
    | some a =>
        obtain ⟨hs, heq⟩ := c.cancelReturn_shape ha
        rw [heq]
        exact .of_replaced ha (.canceled .same (known a ha)) (answers_putAnswer _ id _) rfl
  allocates c id size := by
    rcases c.allocateResults_shape id size with h | ⟨a, e, ms, ha, hmsg, h⟩ <;> rw [h]
    · exact .of_eq rfl rfl
    · exact .of_replaced ha (.worked .same e hmsg) (Or.inl rfl) rfl
  boots c id cap := by
    rcases c.setBootstrap_shape id cap with h | ⟨a, e, ms, ha, hmsg, h⟩ <;> rw [h]
    · exact .of_eq rfl rfl
    · exact .of_replaced ha (.worked .same e hmsg) (Or.inl rfl) rfl

theorem renews_rule : StepRule (Renews fun _ => True) where
  toRunRule := (renews_steady _).toRunRule
  works := (renews_steady _).works
  cancels c id := (renews_steady _).cancels c id fun _ _ => trivial
  allocates := (renews_steady _).allocates
  boots := (renews_steady _).boots
  edits _ _ _ := .of_eq rfl rfl
  routes := renews_setPipeline _

/-- A record notes the error that it noted before, unless its call is given up. -/
theorem Rewrites.error {Q : Answer → Prop} {a a' : Answer} (h : Rewrites Q a a') :
    a'.error = a.error ∨ a'.error = some .callCanceled := by
  induction h with
  | same => exact Or.inl rfl
  | marked _ ih | worked _ _ _ ih | routed _ _ _ ih | cut _ ih => exact ih
  | canceled _ _ _ => exact Or.inr rfl

theorem Rewrites.results {Q : Answer → Prop} {a a' : Answer} (h : Rewrites Q a a') :
    a'.results = a.results := by
  induction h with
  | same => rfl
  | marked _ ih | canceled _ _ ih | worked _ _ _ ih | routed _ _ _ ih | cut _ ih => exact ih

/-! ## What calls complete with -/

/-- The beginning of a return makes `b` of the record `a`, and the connection is `d` then: it notes the error
    that the call completes with, or keeps the results that were written out. -/
structure Closes (c d : Connection) (result : Except Error Unit) (a b : Answer) : Prop where
  error : b.error = match result with | .error e => some e | .ok () => none
  results : b.results = a.results ∨ ∃ e, a.message = some e ∧
    let m := (c.exports.writeResults (c.messages.message e) c.isDown).message
    d.messages = (c.messages.put e m).2 ∧ b.results = (c.messages.put e m).1.results?

theorem record_beginReturn {c : Connection} {id j : AnswerId} {result : Except Error Unit} {b : Answer}
    (hb : (c.beginReturn id result).2.answers.get? j = some b) :
    c.answers.get? j = some b ∨
      ∃ a, c.answers.get? j = some a ∧ c.Closes (c.beginReturn id result).2 result a b := by
  unfold beginReturn at hb ⊢
  split at hb
  · exact Or.inl hb
  · next a ha =>
      dsimp only at hb ⊢
      split at hb
      · next hmsg =>
          rcases Table.get?_of_replaced (Or.inl rfl) hb with ⟨rfl, rfl⟩ | ⟨-, hb⟩
          · exact Or.inr ⟨a, ha, rfl, Or.inl rfl⟩
          · exact Or.inl hb
      · next e hmsg =>
          simp only [returnResults, reportAll_shape] at hb ⊢
          rcases Table.get?_of_replaced (Or.inl rfl) hb with ⟨rfl, rfl⟩ | ⟨-, hb⟩
          · exact Or.inr ⟨a, ha, rfl, Or.inr ⟨e, hmsg, rfl, rfl⟩⟩
          · exact Or.inl hb
      · next e x hmsg =>
          have hanswers : (c.answers.insert id (a.complete (some x))).get? j = some b := by
            unfold returnError at hb
            dsimp only at hb
            split at hb <;> exact hb
          rcases Table.get?_of_replaced (Or.inl rfl) hanswers with ⟨rfl, rfl⟩ | ⟨-, hb⟩
          · exact Or.inr ⟨a, ha, rfl, Or.inl rfl⟩
          · exact Or.inl hb

/-- What a record tells of its call it told before, or the completion of the call has just begun. -/
theorem record_transfer {c : Connection} {action : Action} {j : AnswerId} {b : Answer}
    (hb : (c.transfer action).answers.get? j = some b) :
    (∃ a, c.answers.get? j = some a ∧ b.error = a.error ∧ b.results = a.results) ∨
      ∃ t k result guard a, c.tasks.get? t = some ⟨.sendReturn k (.unbegun result), guard⟩ ∧
        c.answers.get? j = some a ∧ c.Closes (c.transfer action) result a b := by
  unfold transfer at hb ⊢
  split at hb
  · next t =>
      split at hb
      · next task hget =>
          split at hb
          · exact Or.inl ⟨b, hb, rfl, rfl⟩
          · next hlive =>
              obtain ⟨work, guard⟩ := task
              unfold begun at hb ⊢
              dsimp only at hb ⊢
              split at hb
              · next k result =>
                  rw [if_neg hlive]
                  rcases record_beginReturn hb with hb | ⟨a, ha, hcloses⟩
                  · exact Or.inl ⟨b, hb, rfl, rfl⟩
                  · exact Or.inr ⟨t, k, result, guard, a, hget, ha, hcloses⟩
              · exact Or.inl ⟨b, hb, rfl, rfl⟩
      · exact Or.inl ⟨b, hb, rfl, rfl⟩
  · next id releaseCaps =>
      refine Or.inl ?_
      cases ha : c.answers.get? id with
      | none =>
          rw [c.finish_of_none releaseCaps ha] at hb
          exact ⟨b, hb, rfl, rfl⟩
      | some a =>
          obtain ⟨hs, ts, heq⟩ := c.finish_shape releaseCaps ha
          rw [heq] at hb
          rcases Table.get?_of_replaced (answers_putAnswer _ id _) hb with ⟨rfl, rfl⟩ | ⟨-, hb⟩
          · exact ⟨a, ha, rfl, rfl⟩
          · exact ⟨b, hb, rfl, rfl⟩
  · exact Or.inl ⟨b, hb, rfl, rfl⟩

/-! ## What records keep -/

/-- A record notes the same as before, and a message that it has parted with does not come back. -/
structure Keeps (a a' : Answer) : Prop where
  call : a'.call = a.call
  message : a.message = none → a'.message = none
  exports : a'.exports = a.exports

/-- Once the return of a record has begun, what it notes is fixed until it is given back. -/
structure Ages (a a' : Answer) : Prop where
  call : a'.call = a.call
  message : a.message = none → a'.message = none
  exports : a.message = none → a'.exports = a.exports ∨ a'.exports = []

theorem Keeps.refl (a : Answer) : Keeps a a := ⟨rfl, fun h => h, rfl⟩

theorem Keeps.trans {a a' a'' : Answer} (h : Keeps a a') (h' : Keeps a' a'') : Keeps a a'' :=
  ⟨h'.call.trans h.call, h'.message ∘ h.message, h'.exports.trans h.exports⟩

theorem Keeps.ages {a a' : Answer} (h : Keeps a a') : Ages a a' :=
  ⟨h.call, h.message, fun _ => Or.inl h.exports⟩

theorem Ages.trans {a a' a'' : Answer} (h : Ages a a') (h' : Ages a' a'') : Ages a a'' := by
  refine ⟨h'.call.trans h.call, h'.message ∘ h.message, fun hm => ?_⟩
  rcases h'.exports (h.message hm) with hsame | hnone
  · rw [hsame]
    exact h.exports hm
  · exact Or.inr hnone

/-- Every record of a later connection comes from one before, or belongs to a new call. -/
def Descends (P : Answer → Answer → Prop) (c c' : Connection) : Prop :=
  c.nextCall ≤ c'.nextCall ∧ ∀ id a', c'.answers.get? id = some a' →
    (∃ a, c.answers.get? id = some a ∧ P a a') ∨ c.nextCall ≤ a'.call

namespace Descends

variable {P Q S : Answer → Answer → Prop} {c c' c'' : Connection}

theorem mono (h : c.Descends P c') (hPQ : ∀ {a a'}, P a a' → Q a a') : c.Descends Q c' :=
  ⟨h.1, fun id a' ha' => (h.2 id a' ha').imp_left fun ⟨a, ha, hP⟩ => ⟨a, ha, hPQ hP⟩⟩

theorem trans (h : c.Descends P c') (h' : c'.Descends Q c'')
    (hcall : ∀ {a a'}, Q a a' → a'.call = a.call) (hPQ : ∀ {a a' a''}, P a a' → Q a' a'' → S a a'') :
    c.Descends S c'' := by
  refine ⟨Nat.le_trans h.1 h'.1, fun id a'' ha'' => ?_⟩
  rcases h'.2 id a'' ha'' with ⟨a', ha', hQ⟩ | hnew
  · rcases h.2 id a' ha' with ⟨a, ha, hP⟩ | hnew
    · exact Or.inl ⟨a, ha, hPQ hP hQ⟩
    · exact Or.inr (hcall hQ ▸ hnew)
  · exact Or.inr (Nat.le_trans h.1 hnew)

theorem of_eq (hanswers : c'.answers = c.answers) (hcalls : c'.nextCall = c.nextCall) :
    c.Descends Keeps c' :=
  ⟨Nat.le_of_eq hcalls.symm, fun _ a' h => Or.inl ⟨a', hanswers ▸ h, .refl a'⟩⟩

/-- One record is replaced, or leaves the table. -/
theorem of_replaced {id : AnswerId} {a a' : Answer} (ha : c.answers.get? id = some a) (hP : P a a')
    (hrefl : ∀ a, P a a)
    (hanswers : c'.answers = c.answers.insert id a' ∨ c'.answers = c.answers.erase id)
    (hcalls : c'.nextCall = c.nextCall) : c.Descends P c' := by
  refine ⟨Nat.le_of_eq hcalls.symm, fun j x hx => Or.inl ?_⟩
  rcases Table.get?_of_replaced hanswers hx with ⟨rfl, rfl⟩ | ⟨-, hx⟩
  · exact ⟨a, ha, hP⟩
  · exact ⟨x, hx, hrefl x⟩

end Descends

theorem Renews.descends {Q : Answer → Prop} {P : Answer → Answer → Prop} {c c' : Connection}
    (h : c.Renews Q c') (hcall : ∀ {a a'}, P a a' → a'.call = a.call)
    (hP : ∀ {a a'}, Rewrites Q a a' → P a a') : c.Descends P c' := by
  refine ⟨h.1, fun id a' ha' => ?_⟩
  obtain ⟨a, ha | ⟨hnew, -⟩, hrewrites⟩ := h.2 id a' ha'
  · exact Or.inl ⟨a, ha, hP hrewrites⟩
  · exact Or.inr ((hcall (hP hrewrites)).symm ▸ hnew)

theorem Rewrites.keeps {Q : Answer → Prop} {a a' : Answer} (h : Rewrites Q a a') : Keeps a a' := by
  induction h with
  | same => exact .refl a
  | marked _ ih => exact ih.trans ⟨rfl, fun h => h, rfl⟩
  | canceled _ _ ih => exact ih.trans ⟨rfl, fun _ => rfl, rfl⟩
  | worked _ e holds ih => exact ih.trans ⟨rfl, fun h => absurd h holds, rfl⟩
  | routed _ name _ ih => exact ih.trans ⟨rfl, fun h => h, rfl⟩
  | cut _ ih => exact ih.trans ⟨rfl, fun h => h, rfl⟩

theorem keeps_rule : StepRule (Descends Keeps) :=
  renews_rule.mono (fun h h' => h.trans h' Keeps.call .trans) fun h => h.descends Keeps.call Rewrites.keeps

/-! ## Steps and runs -/

theorem ages_beginReturn (c : Connection) (id : AnswerId) (result : Except Error Unit) :
    c.Descends Ages (c.beginReturn id result).2 := by
  have hrefl : ∀ a, Ages a a := fun a => (Keeps.refl a).ages
  cases ha : c.answers.get? id with
  | none =>
      rw [c.beginReturn_of_none result ha]
      exact (Descends.of_eq rfl rfl).mono Keeps.ages
  | some a =>
      cases hmsg : a.message with
      | none =>
          have hspent : ∃ error, (c.beginReturn id result).2.answers =
              c.answers.insert id (a.complete error) ∧
              (c.beginReturn id result).2.nextCall = c.nextCall := by
            simp only [beginReturn, ha, hmsg]
            exact ⟨_, rfl, rfl⟩
          obtain ⟨error, hanswers, hcalls⟩ := hspent
          have hages : Ages a (a.complete error) := ⟨rfl, fun _ => rfl, fun _ => Or.inl rfl⟩
          exact .of_replaced ha hages hrefl (Or.inl hanswers) hcalls
      | some e =>
          obtain ⟨begun, ms, x, hs, p, a', heq, -, hcall, -⟩ := c.beginReturn_shape result ha
          have hopen : a.message ≠ none := by simp [hmsg]
          have hages : Ages a a' := ⟨hcall, fun h => absurd h hopen, fun h => absurd h hopen⟩
          rw [heq]
          exact .of_replaced ha hages hrefl (Or.inl rfl) rfl

theorem ages_finish (c : Connection) (id : AnswerId) (releaseCaps : Bool) :
    c.Descends Ages (c.finish id releaseCaps) := by
  cases ha : c.answers.get? id with
  | none =>
      rw [c.finish_of_none releaseCaps ha]
      exact (Descends.of_eq rfl rfl).mono Keeps.ages
  | some a =>
      obtain ⟨hs, ts, heq⟩ := c.finish_shape releaseCaps ha
      have hages : Ages a (a.markFinishReceived releaseCaps) := by
        refine ⟨rfl, fun h => h, fun _ => ?_⟩
        cases releaseCaps with
        | true => exact Or.inr rfl
        | false => exact Or.inl rfl
      rw [heq]
      exact .of_replaced ha hages (fun a => (Keeps.refl a).ages) (answers_putAnswer _ id _) rfl

theorem ages_transfer (c : Connection) (action : Action) : c.Descends Ages (c.transfer action) :=
  c.transfer_cases action ((Descends.of_eq rfl rfl).mono Keeps.ages) c.ages_beginReturn c.ages_finish

theorem ages_step (c : Connection) (action : Action) : c.Descends Ages (c.step action).2 :=
  (c.ages_transfer action).trans (keeps_rule.step c action) Keeps.call fun h h' => h.trans h'.ages

theorem descends_after (c : Connection) (actions : List Action) : c.Descends Ages (c.after actions) := by
  induction actions generalizing c with
  | nil => exact (Descends.of_eq rfl rfl).mono Keeps.ages
  | cons action rest ih => exact (c.ages_step action).trans (ih _) Ages.call Ages.trans

/-- A call has at most one record. -/
theorem Reachable.record_unique {c : Connection} (hc : Reachable c) {id id' : AnswerId}
    {a a' : Answer} (ha : c.answers.get? id = some a) (ha' : c.answers.get? id' = some a')
    (hcall : a'.call = a.call) : id' = id ∧ a' = a := by
  have hst : c.books.status id = some (a.call, a.state) := status_of_get? ha
  have hst' : c.books.status id' = some (a.call, a'.state) := hcall ▸ status_of_get? ha'
  obtain rfl := hc.custody.call_inj hst' hst
  exact ⟨rfl, Option.some.inj (ha'.symm.trans ha)⟩

theorem Reachable.call_lt {c : Connection} (hc : Reachable c) {id : AnswerId} {a : Answer}
    (ha : c.answers.get? id = some a) : a.call < c.nextCall :=
  hc.custody.call_lt (status_of_get? (b := c.books) ha)

/-- A record that is there before and afterwards descends from itself. -/
theorem Descends.same_record {P : Answer → Answer → Prop} {c c' : Connection} (hc : Reachable c)
    (h : c.Descends P c') (hcall : ∀ {a a'}, P a a' → a'.call = a.call) {id id' : AnswerId}
    {a a' : Answer} (ha : c.answers.get? id = some a) (ha' : c'.answers.get? id' = some a')
    (heq : a'.call = a.call) : id' = id ∧ P a a' := by
  -- a record of a new call has a number that the old one cannot have
  rcases h.2 id' a' ha' with ⟨a₀, ha₀, hP⟩ | hnew
  · obtain ⟨rfl, rfl⟩ := hc.record_unique ha ha₀ ((hcall hP).symm.trans heq)
    exact ⟨rfl, hP⟩
  · exact absurd (hc.call_lt ha) (Nat.not_lt_of_le (heq ▸ hnew))

end Callee.Connection
