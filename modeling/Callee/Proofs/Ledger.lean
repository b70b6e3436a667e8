import Callee.Proofs.Records

set_option autoImplicit false

/-! # The ledger of references

A step moves references in one direction at most: `handsOut` lists those that the peer is handed with a
return, `takesBack` those that it gives back with its finish, each with the call that it is about. What
stands in the table of exports is the balance of the two (`exports_step`, `refs_after`).

`Reachable.exportsBalanced` puts this together for every connection that can come about: the counts are
the balance of the ledger and cover what the answers note, a noted reference leads to the capability
that it was written for as long as the answer notes it, and the peer's finish never asks for a reference
that is not there. -/

namespace Callee.Connection

open Books

/-! ## What a step moves -/

/-- The references that an action hands to the peer, each with the call whose return names it. -/
def handsOut (c : Connection) : Action → List (CallId × ExportId)
  | .poll t =>
      match c.tasks.get? t with
      | some { work := .sendReturn h (.unbegun result), guard } =>
          if guard.any c.isCanceled then []
          else ((c.beginReturn h.id result).1.elim [] BegunReturn.hosted).map fun e => (h.call, e)
      | _ => []
  | _ => []

/-- The references that the peer gives back with an action, each with the call that it was handed it
    for. -/
def takesBack (c : Connection) : Action → List (CallId × ExportId)
  | .finish id releaseCaps =>
      match c.answers.get? id with
      | some a => (a.givenBack releaseCaps).map fun e => (a.call, e)
      | none => []
  | _ => []

/-- What the steps of a run contribute, one after the other. -/
def along {β : Type} (f : Connection → Action → List β) : Connection → List Action → List β
  | _, [] => []
  | c, action :: rest => f c action ++ along f (c.step action).2 rest

theorem along_append {β : Type} (f : Connection → Action → List β) (c : Connection)
    (actions more : List Action) :
    along f c (actions ++ more) = along f c actions ++ along f (c.after actions) more := by
  induction actions generalizing c with
  | nil => rfl
  | cons action rest ih => simp [along, ih]

/-- What a run contributes is contributed by one of its steps. -/
theorem mem_along_iff {β : Type} (f : Connection → Action → List β) (c : Connection)
    (actions : List Action) (x : β) : x ∈ along f c actions ↔
      ∃ before action more, actions = before ++ action :: more ∧ x ∈ f (c.after before) action := by
  constructor
  · intro h
    induction actions generalizing c with
    | nil => exact absurd h (by simp [along])
    | cons action rest ih =>
        rcases List.mem_append.1 h with hnow | hlater
        · exact ⟨[], action, rest, rfl, hnow⟩
        · obtain ⟨before, action', more, rfl, hx⟩ := ih _ hlater
          exact ⟨action :: before, action', more, rfl, hx⟩
  · rintro ⟨before, action, more, rfl, hx⟩
    rw [along_append]
    exact List.mem_append_right _ (List.mem_append_left _ hx)

theorem map_snd_pair (call : CallId) (es : List ExportId) :
    (es.map fun e => (call, e)).map Prod.snd = es := by
  rw [List.map_map]
  exact List.map_id' _

/-! ## What else a step does to the exports -/

/-- As long as the connection stays up, so do the exports. -/
def KeepsExports (c c' : Connection) : Prop :=
  c'.link = .up → c.link = .up ∧ c'.exports = c.exports

/-- Nothing comes to or goes from the exports, unless the connection breaks; then they are all dropped. -/
def DropsExports (c c' : Connection) : Prop :=
  c'.link = c.link ∧ c'.exports = c.exports ∨
    c.link = .up ∧ c'.isDown = true ∧ c'.exports = {}

theorem DropsExports.of_eq {c c' : Connection} (hlink : c'.link = c.link)
    (hexports : c'.exports = c.exports) : c.DropsExports c' :=
  Or.inl ⟨hlink, hexports⟩

theorem DropsExports.keeps {c c' : Connection} (h : c.DropsExports c') : c.KeepsExports c' := by
  intro hup
  rcases h with ⟨hlink, hexports⟩ | ⟨-, hdown, -⟩
  · exact ⟨hlink.symm.trans hup, hexports⟩
  · exact absurd (((c'.isDown_eq_false_iff).2 hup).symm.trans hdown) (by simp)

/-- Nothing but the beginning of a return, the peer's finish and the end of the connection touches the
    exports. -/
theorem exports_rule : StepRule DropsExports where
  trans {c c' c''} h h' := by
    rcases h with ⟨hlink, hexports⟩ | ⟨hup, hdown, hnone⟩
    · rw [DropsExports, ← hlink, ← hexports]
      exact h'
    · rcases h' with ⟨hlink', hexports'⟩ | ⟨hup', -⟩
      · refine Or.inr ⟨hup, ?_, hexports'.trans hnone⟩
        unfold isDown at hdown ⊢
        rw [hlink']
        exact hdown
      · exact absurd (((c'.isDown_eq_false_iff).2 hup').symm.trans hdown) (by simp)
  quiet h := .of_eq (congrArg Books.link h) (congrArg Books.exports h)
  ends c id := by
    cases ha : c.answers.get? id with
    | none =>
        rw [c.endReturn_of_none ha]
        exact .of_eq rfl rfl
    | some a =>
        obtain ⟨hs, heq⟩ := c.endReturn_shape ha
        rw [heq]
        exact .of_eq rfl rfl
  admits c id token := by
    cases ha : c.answers.get? id with
    | some a =>
        rw [c.newAnswer_of_live token ha]
        exact .of_eq rfl rfl
    | none =>
        obtain ⟨admission, ms, hs, heq, -⟩ := c.newAnswer_shape token ha
        rw [heq]
        exact .of_eq rfl rfl
  breaks c e := by
    rcases c.beginDisconnect_shape e with ⟨heq, -⟩ | ⟨hup, ms, hs, p, heq, -⟩
    · rw [heq]
      exact .of_eq rfl rfl
    · rw [heq]
      exact Or.inr ⟨(c.isDown_eq_false_iff).1 hup, rfl, rfl⟩
  works _ h := .of_eq (congrArg Books.link h) (congrArg Books.exports h)
  cancels c id := by
    cases ha : c.answers.get? id with
    | none =>
        rw [c.cancelReturn_of_none ha]
        exact .of_eq rfl rfl
    | some a =>
        obtain ⟨hs, heq⟩ := c.cancelReturn_shape ha
        rw [heq]
        exact .of_eq rfl rfl
  allocates c id size := by
    rcases c.allocateResults_shape id size with h | ⟨a, e, ms, -, -, h⟩
    · rw [h]
      exact .of_eq rfl rfl
    · rw [h]
      exact .of_eq rfl rfl
  boots c id cap := by
    rcases c.setBootstrap_shape id cap with h | ⟨a, e, ms, -, -, h⟩
    · rw [h]
      exact .of_eq rfl rfl
    · rw [h]
      exact .of_eq rfl rfl
  routes c id name := by
    rcases c.setPipeline_shape id name with h | ⟨a, -, -, h⟩
    · rw [h]
      exact .of_eq rfl rfl
    · rw [h]
      exact .of_eq rfl rfl
  edits c ref change := .of_eq rfl rfl

/-! ## One step -/

theorem link_beginReturn (c : Connection) (id : AnswerId) (result : Except Error Unit) :
    (c.beginReturn id result).2.link = c.link := by
  cases ha : c.answers.get? id with
  | none => rw [c.beginReturn_of_none result ha]; rfl
  | some a =>
      obtain ⟨begun, ms, x, hs, p, a', heq, -⟩ := c.beginReturn_shape result ha
      rw [heq]

theorem exports_beginReturn {c : Connection} (hb : c.books.Reckoning) (id : AnswerId)
    (result : Except Error Unit) :
    c.exports.Added ((c.beginReturn id result).1.elim [] BegunReturn.hosted)
      (c.beginReturn id result).2.exports := by
  cases ha : c.answers.get? id with
  | none =>
      rw [c.beginReturn_of_none result ha]
      exact .refl hb.exports
  | some a =>
      obtain ⟨begun, c', a', heq, h⟩ := c.beginReturn_begun hb.exports ha
        (fun e he => ((hb.answers id a ha).unbegun e he).1) result
      rw [heq]
      show c.exports.Added begun.hosted c'.exports
      rcases h.exports with ⟨hsame, -, hnone, -⟩ | ⟨-, hadded, hhosted, -⟩
      · rw [hnone, hsame]
        exact .refl hb.exports
      · rw [hhosted]
        exact hadded

theorem exports_finish {c : Connection} (hb : c.books.Reckoning) (hup : c.link = .up)
    (id : AnswerId) (releaseCaps : Bool) :
    c.exports.Removed ((c.takesBack (.finish id releaseCaps)).map Prod.snd)
        (c.finish id releaseCaps).exports ∧
      ∀ e, ((c.takesBack (.finish id releaseCaps)).map Prod.snd).count e ≤ c.exports.refs e := by
  simp only [takesBack]
  cases ha : c.answers.get? id with
  | none =>
      rw [c.finish_of_none releaseCaps ha]
      exact ⟨.refl hb.exports, fun e => Nat.zero_le _⟩
  | some a =>
      have hle := count_givenBack_le hb hup ha releaseCaps
      obtain ⟨hs, ts, heq⟩ := c.finish_shape releaseCaps ha
      dsimp only
      rw [heq, map_snd_pair]
      exact ⟨(Exports.release_spec hb.exports hle).1, hle⟩

theorem link_finish (c : Connection) (id : AnswerId) (releaseCaps : Bool) :
    (c.finish id releaseCaps).link = c.link := by
  cases ha : c.answers.get? id with
  | none => rw [c.finish_of_none releaseCaps ha]; rfl
  | some a =>
      obtain ⟨hs, ts, heq⟩ := c.finish_shape releaseCaps ha
      rw [heq]
      rfl

theorem link_transfer (c : Connection) (action : Action) : (c.transfer action).link = c.link :=
  c.transfer_cases (P := fun d => d.link = c.link) action rfl c.link_beginReturn c.link_finish

/-- What a step opens with: nothing, the beginning of the return of a handle, or the peer's finish. -/
inductive Opening (c : Connection) (action : Action) : Prop
  | nothing (transfer : c.transfer action = c) (out : c.handsOut action = [])
      (back : c.takesBack action = [])
  | begins {t : TaskId} {h : Handle} {result : Except Error Unit}
      (owes : c.books.taskOwes t = some (h, .building))
      (transfer : c.transfer action = (c.beginReturn h.id result).2)
      (out : c.handsOut action =
        ((c.beginReturn h.id result).1.elim [] BegunReturn.hosted).map fun e => (h.call, e))
      (back : c.takesBack action = [])
  | finishes {id : AnswerId} {releaseCaps : Bool} (isFinish : action = .finish id releaseCaps)

theorem opening_poll (c : Connection) (t : TaskId) : c.Opening (.poll t) := by
  cases hget : c.tasks.get? t with
  | none => exact .nothing (by simp [transfer, hget]) (by simp [handsOut, hget]) rfl
  | some task =>
      obtain ⟨work, guard⟩ := task
      cases hguard : guard.any c.isCanceled with
      | true =>
          refine .nothing (by simp [transfer, hget, hguard]) ?_ rfl
          simp only [handsOut, hget]
          split
          · next heq =>
              obtain ⟨-, rfl⟩ := Task.mk.inj (Option.some.inj heq)
              rw [if_pos hguard]
          · rfl
      | false =>
          -- the work that begins no return
          have hidle : c.begun work = c → c.handsOut (.poll t) = [] → c.Opening (.poll t) :=
            fun hbegun hout => .nothing (by simp [transfer, hget, hguard, hbegun]) hout rfl
          cases work with
          | accept stage => exact hidle rfl (by simp [handsOut, hget])
          | disconnect e stage => exact hidle rfl (by simp [handsOut, hget])
          | sendReturn h stage =>
              cases stage with
              | sending send f => exact hidle rfl (by simp [handsOut, hget])
              | draining w => exact hidle rfl (by simp [handsOut, hget])
              | unbegun result =>
                  have howes : c.books.taskOwes t = some (h, .building) :=
                    (taskOwes_of_get? hget).trans rfl
                  have hbegins : c.transfer (.poll t) = (c.beginReturn h.id result).2 := by
                    simp [transfer, hget, hguard, begun]
                  exact .begins howes hbegins (by simp [handsOut, hget, hguard]) rfl

theorem opening (c : Connection) (action : Action) : c.Opening action := by
  cases action with
  | poll t => exact c.opening_poll t
  | finish id releaseCaps => exact .finishes rfl
  | _ => exact .nothing rfl rfl rfl

/-- The exports after a step, by the ledger: it counts up what is handed out or down what comes back. -/
theorem exports_step {c : Connection} (hb : c.books.Reckoning) (action : Action)
    (hup : (c.step action).2.link = .up) : c.link = .up ∧
      (c.takesBack action = [] ∧
          c.exports.Added ((c.handsOut action).map Prod.snd) (c.step action).2.exports ∨
        c.handsOut action = [] ∧
          c.exports.Removed ((c.takesBack action).map Prod.snd) (c.step action).2.exports ∧
          ∀ e, ((c.takesBack action).map Prod.snd).count e ≤ c.exports.refs e) := by
  obtain ⟨hlink, hexports⟩ := (exports_rule.step c action).keeps hup
  rw [link_transfer] at hlink
  refine ⟨hlink, ?_⟩
  rw [hexports]
  cases c.opening action with
  | nothing transfer out back =>
      rw [transfer, out]
      exact Or.inl ⟨back, .refl hb.exports⟩
  | begins owes transfer out back =>
      rw [transfer, out, map_snd_pair]
      exact Or.inl ⟨back, exports_beginReturn hb _ _⟩
  | finishes isFinish =>
      subst isFinish
      exact Or.inr ⟨rfl, exports_finish hb hlink _ _⟩

/-- The balance of one step. -/
theorem refs_step {c : Connection} (hb : c.books.Reckoning) (action : Action)
    (hup : (c.step action).2.link = .up) (e : ExportId) :
    (c.step action).2.exports.refs e + ((c.takesBack action).map Prod.snd).count e =
      c.exports.refs e + ((c.handsOut action).map Prod.snd).count e := by
  obtain ⟨-, ⟨hback, hadded⟩ | ⟨hout, hremoved, hle⟩⟩ := exports_step hb action hup
  · rw [hback, hadded.refs]
    rfl
  · rw [hout, hremoved.refs]
    exact Nat.sub_add_cancel (hle e)

/-- An export that is there before and after a step has kept its capability. -/
theorem cap_step {c : Connection} (hb : c.books.Reckoning) (action : Action)
    (hup : (c.step action).2.link = .up) {e : ExportId} {exp exp' : Export}
    (hexp : c.exports.table.get? e = some exp)
    (hexp' : (c.step action).2.exports.table.get? e = some exp') : exp'.cap = exp.cap := by
  obtain ⟨-, ⟨-, hadded⟩ | ⟨-, hremoved, -⟩⟩ := exports_step hb action hup
  · obtain ⟨d, hd, hcap⟩ := hadded.kept e exp hexp
    rw [Option.some.inj (hexp'.symm.trans hd)]
    exact hcap
  · obtain ⟨d, hd, hcap⟩ := hremoved.keptIn e exp' hexp'
    rw [Option.some.inj (hexp.symm.trans hd)]
    exact hcap.symm

/-! ## Whole runs -/

theorem up_of_after {c : Connection} (hc : Reachable c) (actions : List Action)
    (hup : (c.after actions).link = .up) : c.link = .up := by
  induction actions generalizing c with
  | nil => exact hup
  | cons action rest ih => exact (exports_step hc.reckoning action (ih (.step action hc) hup)).1

theorem refs_after {c : Connection} (hc : Reachable c) (actions : List Action) (e : ExportId)
    (hup : (c.after actions).link = .up) :
    (c.after actions).exports.refs e + ((along takesBack c actions).map Prod.snd).count e =
      c.exports.refs e + ((along handsOut c actions).map Prod.snd).count e := by
  induction actions generalizing c with
  | nil => rfl
  | cons action rest ih =>
      have hrest := ih (.step action hc) hup
      have hstep := refs_step hc.reckoning action (up_of_after (.step action hc) rest hup) e
      rw [after_cons]
      simp only [along, List.map_append, List.count_append]
      omega

/-! ## What an answer notes -/

/-- A reference that an answer notes is counted. -/
theorem exists_export {c : Connection} (hb : c.books.Reckoning) (hup : c.link = .up) {id : AnswerId}
    {a : Answer} (ha : c.answers.get? id = some a) {e : ExportId} (he : e ∈ a.exports) :
    ∃ exp, c.exports.table.get? e = some exp := by
  have hall : a.exports.count e ≤ c.books.noted e :=
    c.answers.le_total (fun a => a.exports.count e) ha
  have hcount : 0 < a.exports.count e := List.count_pos_iff.2 he
  have hcovers : c.books.noted e ≤ c.exports.refs e := hb.covers hup e
  exact (Exports.refs_pos_iff (x := c.exports) hb.exports e).1 (by omega)

/-- As long as an answer notes a reference, the export keeps its capability. -/
theorem cap_after {c : Connection} (hc : Reachable c) (actions : List Action) {id id' : AnswerId}
    {a b : Answer} {e : ExportId} {exp : Export} (ha : c.answers.get? id = some a)
    (he : e ∈ a.exports) (hb : (c.after actions).answers.get? id' = some b) (hcall : b.call = a.call)
    (he' : e ∈ b.exports) (hup : (c.after actions).link = .up)
    (hexp : c.exports.table.get? e = some exp) :
    ∃ exp', (c.after actions).exports.table.get? e = some exp' ∧ exp'.cap = exp.cap := by
  induction actions generalizing c id a exp with
  | nil => exact ⟨exp, hexp, rfl⟩
  | cons action rest ih =>
      have hc₁ : Reachable (c.step action).2 := .step action hc
      have hup₁ := up_of_after hc₁ rest hup
      -- the answer stands after the first step too, and notes the same
      have hlt : a.call < (c.step action).2.nextCall :=
        Nat.lt_of_lt_of_le (hc.call_lt ha) (c.ages_step action).1
      rcases ((c.step action).2.descends_after rest).2 id' b hb with ⟨a₁, ha₁, hages₁⟩ | hnew
      · have hcall₁ : a₁.call = a.call := hages₁.call.symm.trans hcall
        obtain ⟨-, hages⟩ := (c.ages_step action).same_record hc Ages.call ha ha₁ hcall₁
        have horder := hc.reckoning.answers id a ha
        have hmsg : a.message = none := horder.message_eq_none (horder.ready (List.ne_nil_of_mem he))
        have he₁ : e ∈ a₁.exports := by
          rcases hages₁.exports (hages.message hmsg) with hsame | hnone
          · exact hsame ▸ he'
          · rw [hnone] at he'
            exact absurd he' (by simp)
        obtain ⟨exp₁, hexp₁⟩ := exists_export hc₁.reckoning hup₁ ha₁ he₁
        obtain ⟨exp', hexp', hcap⟩ := ih hc₁ ha₁ he₁ hb (hages₁.call) hup hexp₁
        exact ⟨exp', hexp', hcap.trans (cap_step hc.reckoning action hup₁ hexp hexp₁)⟩
      · rw [hcall] at hnew
        exact absurd hlt (Nat.not_lt_of_le hnew)

/-! ## The peer's finish -/

/-- The peer's finish asks for no reference that is not there, and reports none. -/
theorem finish_unreported {c : Connection} (hb : c.books.Reckoning) (hup : c.link = .up)
    (id : AnswerId) (releaseCaps : Bool) : ∃ events,
      (c.finish id releaseCaps).history = events ++ c.history ∧
        ∀ ids, .reported (.invalidExports ids) ∉ events := by
  cases ha : c.answers.get? id with
  | none =>
      rw [c.finish_of_none releaseCaps ha]
      exact ⟨[.reported (.unknownQuestion id)], rfl, by simp⟩
  | some a =>
      have hnone : (c.exports.release (a.givenBack releaseCaps)).errors = [] := by
        have hinvalid : (c.exports.release (a.givenBack releaseCaps)).invalid = [] :=
          (Exports.release_spec hb.exports (count_givenBack_le hb hup ha releaseCaps)).2
        simp [Release.errors, hinvalid]
      simp only [finish, ha, hnone, reportAll, List.foldl_nil]
      split
      · exact ⟨[.releasedOnFinish id], rfl, by simp⟩
      · exact ⟨[], rfl, by simp⟩

/-! ## All connections -/

/-- Answers, exports and the ledger agree. -/
structure ExportsBalanced (c : Connection) : Prop where
  /-- While the connection is up, what is counted changes by what is handed out and comes back. -/
  ledger : ∀ actions e, (c.after actions).link = .up →
    (c.after actions).exports.refs e + ((along takesBack c actions).map Prod.snd).count e =
      c.exports.refs e + ((along handsOut c actions).map Prod.snd).count e
  /-- The answers together note no reference more often than it is counted. -/
  covers : c.link = .up → ∀ e,
    c.answers.total (fun a => a.exports.count e) ≤ c.exports.refs e
  /-- What an answer notes leads to the capability in the slot of its message. -/
  named : c.link = .up → ∀ id a (i : Nat) e, c.answers.get? id = some a → a.exports[i]? = some e →
    ∃ r cap exp, a.results = some r ∧ (c.messages.arena r.arena).caps[i]? = some (some cap) ∧
      c.exports.table.get? e = some exp ∧ exp.cap.identity = cap.identity
  /-- It keeps that capability as long as the answer notes it. -/
  kept : ∀ actions id a id' b e exp, (c.after actions).link = .up → c.answers.get? id = some a →
    e ∈ a.exports → (c.after actions).answers.get? id' = some b → b.call = a.call → e ∈ b.exports →
    c.exports.table.get? e = some exp →
    ∃ exp', (c.after actions).exports.table.get? e = some exp' ∧ exp'.cap = exp.cap
  /-- Each reference that a finish gives back is counted at its turn. -/
  giveBack : c.link = .up → ∀ id a releaseCaps, c.answers.get? id = some a →
    (∀ before e after, a.givenBack releaseCaps = before ++ e :: after →
      0 < (c.exports.release before).exports.refs e) ∧
    (c.exports.release (a.givenBack releaseCaps)).invalid = []
  /-- A finish reports no invalid export. -/
  unreported : c.link = .up → ∀ id releaseCaps, ∃ events,
    (c.step (.finish id releaseCaps)).2.history = events ++ c.history ∧
      ∀ ids, .reported (.invalidExports ids) ∉ events

/-- On every connection that can come about, answers, exports and the ledger agree. -/
theorem Reachable.exportsBalanced {c : Connection} (hc : Reachable c) : c.ExportsBalanced where
  ledger actions e hup := refs_after hc actions e hup
  covers hup e := hc.reckoning.covers hup e
  named hup id a i e ha he := by
    have hne : a.exports ≠ [] := by
      intro hnone
      rw [hnone] at he
      exact absurd he (by simp)
    obtain ⟨r, hr, hmatch⟩ := (hc.reckoning.answers id a ha).named hup hne
    obtain ⟨cap, hcap, exp, hexp, hid⟩ := hmatch i e he
    exact ⟨r, cap, exp, hr, hcap, hexp, hid⟩
  kept actions id a id' b e exp hup ha he hb hcall he' hexp :=
    cap_after hc actions ha he hb hcall he' hup hexp
  giveBack hup id a releaseCaps ha := by
    have hle := count_givenBack_le hc.reckoning hup ha releaseCaps
    refine ⟨fun before e after heq => ?_, (Exports.release_spec hc.reckoning.exports hle).2⟩
    exact Exports.refs_pos_of_release hc.reckoning.exports (heq ▸ hle)
  unreported hup id releaseCaps := finish_unreported hc.reckoning hup id releaseCaps

/-- A run in which two calls return one capability and the peer gives one of the references back. -/
def sharingRun : List Action :=
  [.newAnswer 1 "first", .newAnswer 2 "second", .setBootstrap ⟨1, 0⟩ ⟨"object", 5⟩,
    .setBootstrap ⟨2, 1⟩ ⟨"object", 5⟩, .sendReturn ⟨1, 0⟩ (.ok ()) none,
    .sendReturn ⟨2, 1⟩ (.ok ()) none, .poll 0, .poll 1, .finish 1 true]

theorem exportsBalanced_after_sharing :
    along handsOut (initial {}) sharingRun = [(0, 0), (1, 0)] ∧
      along takesBack (initial {}) sharingRun = [(0, 0)] ∧
      ((initial {}).after sharingRun).link = .up ∧
      ((initial {}).after sharingRun).exports.refs 0 = 1 ∧
      ((initial {}).after sharingRun).ExportsBalanced :=
  ⟨by decide +kernel, by decide +kernel, by decide +kernel, by decide +kernel,
    ((Reachable.initial {}).after sharingRun).exportsBalanced⟩

end Callee.Connection
