import Callee.Proofs.Describing
import Callee.Proofs.Outcomes

set_option autoImplicit false

/-! # What is attached as results

Whoever executes a call may make something its results as often as it likes, and may run out of room each time,
between any two of the steps that this takes. What the results point to then is never in doubt: after a success
it is what was made just now, which nothing made before stands for, and after a failure what it was before, or
nothing (`Reachable.attachesLast`). It is always something that is there. Nothing else changes it, and it goes out
with the return when the call completes (`handed`). -/

namespace Callee

/-! ## Deeds that attach -/

namespace Deed

/-- The deed makes something the results of a call. -/
def attaches : Deed → Bool
  | allocate _ | boot _ => true
  | _ => false

/-- No other deed changes what the results point to. -/
theorem attached?_foldl {ds : List Deed} (h : ∀ d ∈ ds, d.attaches = false) (m : Message) :
    (ds.foldl (fun m d => d.rework m) m).attached? = m.attached? := by
  induction ds generalizing m with
  | nil => rfl
  | cons d rest ih =>
      have hfirst : (d.rework m).attached? = m.attached? := by
        have hnot := h d (List.mem_cons_self ..)
        cases d with
        | allocate size | boot cap => exact absurd hnot (by simp [attaches])
        | _ => rfl
      exact (ih (fun d' hd' => h d' (List.mem_cons_of_mem _ hd')) _).trans hfirst

end Deed

/-! ## Writing out what is attached -/

namespace Message

theorem getResults_of_attached? {m : Message} {p : Pointer} (h : m.attached? = some p) :
    ∃ payload, m.getResults = .ok payload := by
  obtain ⟨root, hroot, hcontent⟩ := Option.bind_eq_some_iff.1 h
  unfold Root.content? at hcontent
  split at hcontent
  · exact ⟨_, getResults_eq_ok_iff.2 ⟨_, hroot, rfl⟩⟩
  · exact absurd hcontent (by simp)

theorem attached?_of_getResults {m : Message} {payload : Payload} (h : m.getResults = .ok payload) :
    m.attached? = some payload.content := by
  obtain ⟨ret, hroot, hout⟩ := getResults_eq_ok_iff.1 h
  exact attached?_of_root hroot hout

/-- Results stay, and empty ones are put where there are none, if there is room for them. -/
theorem attached?_ensureResults {m : Message} {ret : Return} (hroot : m.root = some (.return ret)) :
    (∀ p, m.attached? = some p → m.ensureResults.1.attached? = some p) ∧
      (m.attached? = none → m.HasPayloadRoom → m.ensureResults.1.attached? = some .null) := by
  unfold ensureResults
  cases hres : m.getResults with
  | ok payload => exact ⟨fun p hp => hp, fun hnone => absurd hnone (by simp [attached?_of_getResults hres])⟩
  | error e =>
      refine ⟨fun p hp => ?_, fun _ hroom => ?_⟩
      · obtain ⟨payload, hok⟩ := getResults_of_attached? hp
        exact absurd (hres.symm.trans hok) (by simp)
      · have hallocate := (m.arena.allocate_eq_ok_iff _ payloadWords).2 ⟨hroom, rfl⟩
        simp only [initResults_of_root hroot, hallocate, Except.map]
        rfl

/-- The descriptors are written beside what is attached. -/
theorem attached?_writeResults (x : Exports) (m : Message) :
    (x.writeResults m false).message.attached? = m.ensureResults.1.attached? := by
  unfold Exports.writeResults
  simp only [Bool.false_eq_true, if_false]
  rcases x.writeDescriptors_cases m.ensureResults.1 with
    ⟨e, herr, heq⟩ | ⟨ret, payload, words, hroot, hout, heq⟩ <;> rw [heq]
  · obtain ⟨hroot, -⟩ := initCapTable_failed (Prod.ext herr rfl)
    exact congrArg (Option.bind · Root.content?) hroot
  · rw [attached?_of_root hroot hout]
    rfl

end Message

/-! ## One attempt after another -/

/-- The action is to make something the results of a call. -/
def Action.attaches (h : Handle) : Action → Bool
  | .allocateResults k _ => k = h
  | .setBootstrap k _ => k = h
  | _ => false

/-- The attempt to make something the results of a call has succeeded. -/
def Reply.succeeds : Reply → Bool
  | .allocated _ => true
  | .done => true
  | _ => false

namespace Connection

open Books

/-- What the results of a call point to after an action that has made something its results. -/
def attachments (h : Handle) (c : Connection) (action : Action) : List Pointer :=
  if action.attaches h && (c.step action).1.succeeds then
    (((c.step action).2.draft? h).bind Message.attached?).toList
  else []

variable {c : Connection} {h : Handle} {m : Message}

/-- The return of a running call is a return. -/
theorem root_of_draft? (hc : Reachable c) (hm : c.draft? h = some m) :
    ∃ ret, m.root = some (.return ret) := by
  obtain ⟨ret, hret⟩ := hc.isDraft h m hm
  exact ⟨ret, hret.root⟩

/-- What is attached is there. -/
theorem has_of_draft? (hc : Reachable c) (hm : c.draft? h = some m) {p : Pointer}
    (hp : m.attached? = some p) : m.arena.Has p := by
  obtain ⟨a, e, ha, -, -, hmsg, rfl⟩ := record_of_draft? hm
  exact (hc.stored.opened ha hmsg).2 p hp

/-- Only through a handle that stands alone is anything made the results. -/
theorem holds_of_attaches {action : Action} (hattaches : action.attaches h = true)
    (hreply : (c.step action).1 ≠ .refused) : c.holds h = true := by
  by_contra hfree
  cases action with
  | allocateResults k size | setBootstrap k cap =>
      obtain rfl : k = h := by simpa [Action.attaches] using hattaches
      exact hreply (by simp only [step, if_neg hfree])
  | _ => exact absurd hattaches (by simp [Action.attaches])

/-- An attempt through such a handle to make a new struct the results succeeds if there is room, and else it
    fails. -/
theorem ends_allocateResults (hc : Reachable c) (hm : c.draft? h = some m) (hheld : c.holds h = true)
    (size : ObjectSize) :
    (m.HasStructRoom size ∧ ∃ ref, (c.step (.allocateResults h size)).1 = .allocated ref) ∨
      ¬ m.HasStructRoom size ∧ ∃ e, (c.step (.allocateResults h size)).1 = .failed e := by
  obtain ⟨ret, hroot⟩ := root_of_draft? hc hm
  obtain ⟨r, -, hresult, -⟩ := step_allocateResults hm hheld size
  rw [hresult]
  rcases Message.allocateResults_cases hroot size with
    ⟨words, -, hroom, heq⟩ | ⟨limit, -, hnot, heq | ⟨words, -, heq⟩⟩ <;> rw [heq]
  · exact Or.inl ⟨hroom, _, rfl⟩
  · exact Or.inr ⟨hnot, _, rfl⟩
  · exact Or.inr ⟨hnot, _, rfl⟩

/-- One to make a capability the results does so if there is room for results. -/
theorem ends_setBootstrap (hc : Reachable c) (hm : c.draft? h = some m) (hheld : c.holds h = true)
    (cap : Capability) :
    (m.HasPayloadRoom ∧ (c.step (.setBootstrap h cap)).1 = .done) ∨
      ¬ m.HasPayloadRoom ∧ ∃ e, (c.step (.setBootstrap h cap)).1 = .failed e := by
  obtain ⟨ret, hroot⟩ := root_of_draft? hc hm
  obtain ⟨hresult, -⟩ := step_setBootstrap hm hheld cap
  rw [hresult]
  rcases Message.setBootstrap_cases hroot cap with ⟨words, -, hroom, heq⟩ | ⟨limit, hlimit, hlow, heq⟩ <;>
    rw [heq]
  · exact Or.inl ⟨hroom, rfl⟩
  · exact Or.inr ⟨fun hroom => absurd (hroom limit hlimit) (Nat.not_le_of_lt hlow), _, rfl⟩

/-- A struct that was made the results is new, and is what they point to. -/
theorem attached_of_allocated (hc : Reachable c) (hm : c.draft? h = some m) {size : ObjectSize}
    {ref : StructRef} (hreply : (c.step (.allocateResults h size)).1 = .allocated ref) :
    c.arenaOf? h = some ref.arena ∧ ref.index = m.arena.structs.length ∧
      ∃ m', (c.step (.allocateResults h size)).2.draft? h = some m' ∧
        m'.attached? = some (.struct ref.index) ∧
        m'.arena.structs = m.arena.structs ++ [.blank size] := by
  have hattaches : (Action.allocateResults h size).attaches h = true := by simp [Action.attaches]
  have hheld : c.holds h = true := holds_of_attaches hattaches (by simp [hreply])
  obtain ⟨ret, hroot⟩ := root_of_draft? hc hm
  obtain ⟨r, harena, hresult, hnext⟩ := step_allocateResults hm hheld size
  rw [hresult] at hreply
  rw [hnext]
  rcases Message.allocateResults_cases hroot size with
    ⟨words, -, -, heq⟩ | ⟨limit, -, -, heq | ⟨words, -, heq⟩⟩ <;> rw [heq] at hreply ⊢
  · obtain rfl := Reply.allocated.inj hreply
    exact ⟨harena, rfl, _, rfl, rfl, rfl⟩
  · exact absurd hreply (by simp)
  · exact absurd hreply (by simp)

/-- A capability that was made the results has a new slot, and that is what they point to. -/
theorem attached_of_booted (hc : Reachable c) (hm : c.draft? h = some m) {cap : Capability}
    (hreply : (c.step (.setBootstrap h cap)).1 = .done) :
    ∃ m', (c.step (.setBootstrap h cap)).2.draft? h = some m' ∧
      m'.attached? = some (.capability m.arena.caps.length) ∧
      m'.arena.caps = m.arena.caps ++ [some cap] := by
  have hattaches : (Action.setBootstrap h cap).attaches h = true := by simp [Action.attaches]
  have hheld : c.holds h = true := holds_of_attaches hattaches (by simp [hreply])
  obtain ⟨ret, hroot⟩ := root_of_draft? hc hm
  obtain ⟨hresult, hnext⟩ := step_setBootstrap hm hheld cap
  rw [hresult] at hreply
  rw [hnext]
  rcases Message.setBootstrap_cases hroot cap with ⟨words, -, -, heq⟩ | ⟨limit, -, -, heq⟩ <;>
    rw [heq] at hreply ⊢
  · exact ⟨_, rfl, rfl, rfl⟩
  · exact absurd hreply (by simp)

/-- After a failure the results point to what they pointed to before, or to nothing. -/
theorem attached_of_failed (hc : Reachable c) (hm : c.draft? h = some m) {action : Action}
    (hattaches : action.attaches h = true) {e : Error} (hreply : (c.step action).1 = .failed e) :
    ∃ m', (c.step action).2.draft? h = some m' ∧
      (m'.attached? = m.attached? ∨ m'.attached? = some .null) := by
  have hheld : c.holds h = true := holds_of_attaches hattaches (by simp [hreply])
  obtain ⟨ret, hroot⟩ := root_of_draft? hc hm
  cases action with
  | allocateResults k size =>
      obtain rfl : k = h := by simpa [Action.attaches] using hattaches
      obtain ⟨r, -, hresult, hnext⟩ := step_allocateResults hm hheld size
      rw [hresult] at hreply
      rw [hnext]
      rcases Message.allocateResults_cases hroot size with
        ⟨words, -, -, heq⟩ | ⟨limit, -, -, heq | ⟨words, -, heq⟩⟩ <;> rw [heq] at hreply ⊢
      · exact absurd hreply (by simp)
      · exact ⟨_, rfl, Or.inl rfl⟩
      · exact ⟨_, rfl, Or.inr rfl⟩
  | setBootstrap k cap =>
      obtain rfl : k = h := by simpa [Action.attaches] using hattaches
      obtain ⟨hresult, hnext⟩ := step_setBootstrap hm hheld cap
      rw [hresult] at hreply
      rw [hnext]
      rcases Message.setBootstrap_cases hroot cap with ⟨words, -, -, heq⟩ | ⟨limit, -, -, heq⟩ <;>
        rw [heq] at hreply ⊢
      · exact absurd hreply (by simp)
      · exact ⟨_, rfl, Or.inl rfl⟩
  | _ => exact absurd hattaches (by simp [Action.attaches])

/-- Only an attempt to make something the results of a call does so. -/
theorem attaches_of_deeds {action : Action} {d : Deed} (hd : d ∈ deeds h c action)
    (hnot : action.attaches h = false) : d.attaches = false := by
  cases action with
  | allocateResults k size | setBootstrap k cap =>
      have hother : k ≠ h := by simpa [Action.attaches] using hnot
      simp only [deeds, hother, false_and, if_false] at hd
      exact absurd hd List.not_mem_nil
  | edit ref change | setPipeline id name | dropHandle k =>
      simp only [deeds] at hd
      split at hd
      · obtain rfl := List.mem_singleton.1 hd
        rfl
      · exact absurd hd List.not_mem_nil
  | dropTask t =>
      simp only [deeds] at hd
      split at hd
      · obtain rfl := List.mem_singleton.1 hd
        rfl
      · exact absurd hd List.not_mem_nil
  | poll t =>
      simp only [deeds] at hd
      split at hd
      · exact absurd hd List.not_mem_nil
      · split at hd
        · obtain rfl := List.mem_singleton.1 hd
          split <;> rfl
        · split at hd
          · obtain rfl := List.mem_singleton.1 hd
            rfl
          · exact absurd hd List.not_mem_nil
  | _ => exact absurd hd List.not_mem_nil

/-- Nothing but such an attempt changes what is attached. -/
theorem attached_of_others (hc : Reachable c) (hm : c.draft? h = some m) {actions : List Action}
    (hothers : ∀ action ∈ actions, action.attaches h = false) {m' : Message}
    (hm' : (c.after actions).draft? h = some m') : m'.attached? = m.attached? := by
  obtain ⟨m₀, hm₀, rfl⟩ := draft?_of_after hc (call_lt_of_draft? hc hm) hm'
  obtain rfl := Option.some.inj (hm₀.symm.trans hm)
  refine Deed.attached?_foldl (fun d hd => ?_) m₀
  obtain ⟨before, action, more, rfl, hdeed⟩ := (mem_along_iff ..).1 hd
  exact attaches_of_deeds hdeed (hothers action (by simp))

/-! ## No pointer twice -/

/-- What an action attaches was not there before it. -/
theorem new_of_attachments (hc : Reachable c) {action : Action} {p : Pointer}
    (hp : p ∈ attachments h c action) : ∃ m m', c.draft? h = some m ∧
      (c.step action).2.draft? h = some m' ∧ ¬ m.arena.Has p ∧ m'.arena.Has p := by
  unfold attachments at hp
  split at hp
  · next hboth =>
      obtain ⟨hattaches, hsucceeds⟩ := Bool.and_eq_true_iff.1 hboth
      obtain ⟨m', hm', hattached⟩ := Option.bind_eq_some_iff.1 (Option.mem_toList.1 hp)
      have hheld : c.holds h = true :=
        holds_of_attaches hattaches fun hrefused => by simp [hrefused, Reply.succeeds] at hsucceeds
      obtain ⟨a, ha, hcall, -⟩ := hc.custody.found_at (holds_executor hheld)
      obtain ⟨m, hm, -⟩ := draft?_of_step hc (hcall ▸ hc.call_lt ha) hm'
      refine ⟨m, m', hm, hm', ?_, has_of_draft? (.step action hc) hm' hattached⟩
      cases action with
      | allocateResults k size =>
          obtain rfl : k = h := by simpa [Action.attaches] using hattaches
          obtain ⟨r, -, hresult, -⟩ := step_allocateResults hm hheld size
          cases hbuilt : (m.allocateResults size).1 with
          | error e => simp [hresult, hbuilt, Reply.succeeds] at hsucceeds
          | ok index =>
              rw [hbuilt] at hresult
              obtain ⟨-, hindex, m'', hm'', hattached', -⟩ := attached_of_allocated hc hm hresult
              obtain rfl := Option.some.inj (hm''.symm.trans hm')
              obtain rfl := Option.some.inj (hattached'.symm.trans hattached)
              rw [hindex]
              exact Nat.lt_irrefl _
      | setBootstrap k cap =>
          obtain rfl : k = h := by simpa [Action.attaches] using hattaches
          obtain ⟨hresult, -⟩ := step_setBootstrap hm hheld cap
          cases hbuilt : (m.setBootstrap cap).1 with
          | error e => simp [hresult, hbuilt, Reply.succeeds] at hsucceeds
          | ok u =>
              rw [hbuilt] at hresult
              obtain ⟨m'', hm'', hattached', -⟩ := attached_of_booted hc hm hresult
              obtain rfl := Option.some.inj (hm''.symm.trans hm')
              obtain rfl := Option.some.inj (hattached'.symm.trans hattached)
              exact Nat.lt_irrefl _
      | _ => exact absurd hattaches (by simp [Action.attaches])
  · exact absurd hp List.not_mem_nil

/-- Nor was it there any time before. -/
theorem new_of_along (hc : Reachable c) (hm : c.draft? h = some m) {actions : List Action} {p : Pointer}
    (hp : p ∈ along (attachments h) c actions) : ¬ m.arena.Has p := by
  obtain ⟨before, action, more, rfl, hattached⟩ := (mem_along_iff ..).1 hp
  obtain ⟨m₁, -, hm₁, -, hnew, -⟩ := new_of_attachments (hc.after before) hattached
  obtain ⟨m₀, hm₀, rfl⟩ := draft?_of_after hc (call_lt_of_draft? hc hm) hm₁
  obtain rfl := Option.some.inj (hm₀.symm.trans hm)
  exact fun hhas => hnew ((Deed.builds_foldl _ m₀).arena.has hhas)

/-- So no two attempts attach the same. -/
theorem nodup_attachments (hc : Reachable c) (h : Handle) (actions : List Action) :
    (along (attachments h) c actions).Nodup := by
  induction actions generalizing c with
  | nil => exact List.nodup_nil
  | cons action rest ih =>
      refine List.nodup_append.2 ⟨?_, ih (.step action hc), ?_⟩
      · unfold attachments
        split
        · cases ((c.step action).2.draft? h).bind Message.attached? <;> simp
        · exact List.nodup_nil
      · rintro p hp q hq rfl
        obtain ⟨-, m', -, hm', -, hhas⟩ := new_of_attachments hc hp
        exact new_of_along (.step action hc) hm' hq hhas

/-! ## Handing over -/

/-- A call that completes with its results hands over what is attached to them when its return begins. -/
theorem attached_of_sends (hc : Reachable c) (hm : c.draft? h = some m) {t : TaskId} {guard : Option Token}
    (hget : c.tasks.get? t = some ⟨.sendReturn h (.unbegun (.ok ())), guard⟩)
    (hlive : guard.any c.isCanceled = false) (hup : c.isDown = false) {more : List Action} {m' : Message}
    (hm' : m' ∈ (c.after (.poll t :: more)).sends h.call) : m'.attached? = m.ensureResults.1.attached? := by
  obtain ⟨a, e, ha, -, -, hmsg, rfl⟩ := record_of_draft? hm
  obtain ⟨hbegun, -⟩ := beginReturn_of_results ha hmsg hup
  have hway : c.onItsWay (.sendReturn h (.unbegun (.ok ()))) = some (h.call, .waiting
      { e with root := (c.exports.writeResults (c.messages.message e) false).message.root }) := by
    simp [onItsWay, hbegun]
  obtain ⟨hwaits, hsent⟩ := waits_of_begins hc hget hlive hway
  have hroot := hwaits.roots_after (.step _ hc) (fun x hx => by rw [hsent x hx]; rfl) more m' hm'
  calc m'.attached?
    _ = (c.exports.writeResults (c.messages.message e) false).message.attached? :=
        congrArg (Option.bind · Root.content?) hroot
    _ = (c.messages.message e).ensureResults.1.attached? := Message.attached?_writeResults ..

/-- What becomes of the results of a running call, with a return that was reserved for it. -/
structure Attaches (c : Connection) (h : Handle) (m : Message) : Prop where
  /-- An attempt to make something the results succeeds exactly if there is room, and else it fails. -/
  allocates : ∀ size, c.holds h = true →
    (m.HasStructRoom size ∧ ∃ ref, (c.step (.allocateResults h size)).1 = .allocated ref) ∨
      ¬ m.HasStructRoom size ∧ ∃ e, (c.step (.allocateResults h size)).1 = .failed e
  boots : ∀ cap, c.holds h = true →
    (m.HasPayloadRoom ∧ (c.step (.setBootstrap h cap)).1 = .done) ∨
      ¬ m.HasPayloadRoom ∧ ∃ e, (c.step (.setBootstrap h cap)).1 = .failed e
  /-- A struct that was made the results is new, and they point to it. -/
  allocated : ∀ size ref, (c.step (.allocateResults h size)).1 = .allocated ref →
    c.arenaOf? h = some ref.arena ∧ ref.index = m.arena.structs.length ∧
      ∃ m', (c.step (.allocateResults h size)).2.draft? h = some m' ∧
        m'.attached? = some (.struct ref.index) ∧ m'.arena.structs = m.arena.structs ++ [.blank size]
  /-- A capability that was made the results has a new slot, and they point to it. -/
  booted : ∀ cap, (c.step (.setBootstrap h cap)).1 = .done →
    ∃ m', (c.step (.setBootstrap h cap)).2.draft? h = some m' ∧
      m'.attached? = some (.capability m.arena.caps.length) ∧ m'.arena.caps = m.arena.caps ++ [some cap]
  /-- After a failure they point to what they pointed to before, or to nothing: to nothing that the attempt has
      made. -/
  failed : ∀ action e, action.attaches h = true → (c.step action).1 = .failed e →
    ∃ m', (c.step action).2.draft? h = some m' ∧
      (m'.attached? = m.attached? ∨ m'.attached? = some .null) ∧
      ∀ p, m'.attached? = some p → m.arena.Has p
  /-- What they point to is always there. -/
  present : ∀ actions m' p, (c.after actions).draft? h = some m' → m'.attached? = some p → m'.arena.Has p
  /-- Its index is a number of 32 bits, as long as there are enough of them. -/
  exact : ∀ actions m' p, (c.after actions).draft? h = some m' → m'.attached? = some p → m'.arena.Numbered →
    p.index.toUInt32.toNat = p.index
  /-- Only such an attempt changes what they point to. -/
  kept : ∀ actions m', (∀ action ∈ actions, action.attaches h = false) →
    (c.after actions).draft? h = some m' → m'.attached? = m.attached?
  /-- What one attempt has made was not there before the run, and no other attempt of the run makes it. -/
  fresh : ∀ actions, (along (attachments h) c actions).Nodup ∧
    ∀ p ∈ along (attachments h) c actions, ¬ m.arena.Has p
  /-- If the call completes now, and the connection is up, then a return goes out before the completion is
      finished, and what goes out points to what they point to now, or to nothing if there was nothing and there is
      room for empty results. -/
  handed : ∀ t guard, c.tasks.get? t = some ⟨.sendReturn h (.unbegun (.ok ())), guard⟩ →
    guard.any c.isCanceled = false → c.isDown = false → ∀ more,
      (c.FinishesIn t (.poll t :: more) → ((c.after (.poll t :: more)).sends h.call).length = 1) ∧
      ∀ m' ∈ (c.after (.poll t :: more)).sends h.call,
        (∀ p, m.attached? = some p → m'.attached? = some p) ∧
        (m.attached? = none → m.HasPayloadRoom → m'.attached? = some .null)

/-- What is attached is never in doubt, whatever call was running before and whatever was done to it. -/
theorem Reachable.attachesLast (hc : Reachable c) (hm : c.draft? h = some m) : c.Attaches h m := by
  obtain ⟨ret, hroot⟩ := root_of_draft? hc hm
  constructor
  case allocates => exact fun size hheld => ends_allocateResults hc hm hheld size
  case boots => exact fun cap hheld => ends_setBootstrap hc hm hheld cap
  case allocated => exact fun size ref hreply => attached_of_allocated hc hm hreply
  case booted => exact fun cap hreply => attached_of_booted hc hm hreply
  case failed =>
    intro action e hattaches hreply
    obtain ⟨m', hm', hattached⟩ := attached_of_failed hc hm hattaches hreply
    refine ⟨m', hm', hattached, fun p hp => ?_⟩
    rcases hattached with hsame | hnull
    · exact has_of_draft? hc hm (hsame.symm.trans hp)
    · obtain rfl := Option.some.inj (hnull.symm.trans hp)
      trivial
  case present => exact fun actions m' p hm' hp => has_of_draft? (hc.after actions) hm' hp
  case exact =>
    exact fun actions m' p hm' hp hnumbered => (has_of_draft? (hc.after actions) hm' hp).index_exact hnumbered
  case kept => exact fun actions m' hothers hm' => attached_of_others hc hm hothers hm'
  case fresh => exact fun actions => ⟨nodup_attachments hc h actions, fun p hp => new_of_along hc hm hp⟩
  case handed =>
    intro t guard hget hlive hup more
    obtain ⟨a, e, ha, -, -, hmsg, -⟩ := record_of_draft? hm
    refine ⟨fun hfin => sends_of_completed hc hget ⟨hup, a, e, ha, hmsg, by simp⟩ hfin, fun m' hm' => ?_⟩
    rw [attached_of_sends hc hm hget hlive hup hm']
    exact Message.attached?_ensureResults hroot

/-- A run under a limit of 14 words. A struct becomes the results of a call, and then a capability. There is no
    room for the next struct, so the results are empty, and then another capability becomes the results, but a
    third does not. -/
def attachingRun : List Action :=
  [.configure (.wordLimit (some 14)), .newAnswer 1 "call", .allocateResults ⟨1, 0⟩ ⟨1, 0⟩,
    .setBootstrap ⟨1, 0⟩ ⟨"door", 5⟩, .allocateResults ⟨1, 0⟩ ⟨4, 0⟩, .setBootstrap ⟨1, 0⟩ ⟨"bell", 6⟩,
    .setBootstrap ⟨1, 0⟩ ⟨"lamp", 7⟩, .sendReturn ⟨1, 0⟩ (.ok ()) none]

/-- In the middle of the run a struct finds no room, and a capability does. The last capability that found room is
    what goes out. -/
theorem attaches_after_failures :
    let building := (initial {}).after (attachingRun.take 4)
    let completing := (initial {}).after attachingRun
    along (attachments ⟨1, 0⟩) (initial {}) attachingRun = [.struct 0, .capability 0, .capability 1] ∧
      (building.step (.allocateResults ⟨1, 0⟩ ⟨4, 0⟩)).1 = .failed (.allocatingResults (.sizeLimit 14)) ∧
      (building.step (.setBootstrap ⟨1, 0⟩ ⟨"bell", 6⟩)).1 = .done ∧
      ((completing.after [.poll 0]).sends 0).map Message.attached? = [some (.capability 1)] ∧
      (∃ m, building.draft? ⟨1, 0⟩ = some m ∧ building.Attaches ⟨1, 0⟩ m) ∧
      ∃ m, completing.draft? ⟨1, 0⟩ = some m ∧ completing.Attaches ⟨1, 0⟩ m := by
  intro building completing
  have hbuilding : Reachable building := (Reachable.initial {}).after _
  have hcompleting : Reachable completing := (Reachable.initial {}).after _
  have hrunning : (building.draft? ⟨1, 0⟩).isSome = true := by decide +kernel
  have hrunning' : (completing.draft? ⟨1, 0⟩).isSome = true := by decide +kernel
  obtain ⟨m, hm⟩ := Option.isSome_iff_exists.1 hrunning
  obtain ⟨m', hm'⟩ := Option.isSome_iff_exists.1 hrunning'
  exact ⟨by decide +kernel, by decide +kernel, by decide +kernel, by decide +kernel,
    ⟨m, hm, hbuilding.attachesLast hm⟩, m', hm', hcompleting.attachesLast hm'⟩

end Connection

end Callee
