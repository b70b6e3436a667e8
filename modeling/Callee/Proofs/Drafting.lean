import Callee.Proofs.Addressing
import Callee.Proofs.Deeds

set_option autoImplicit false

/-! # Returns under construction

The return of a running call is worked on by those who make something its results, and by those who write into
its structs. `allocateResults_cases` and `setBootstrap_cases` say all that can come of the first: what is new
stands behind everything else in the storage and is what the results point to then, or there is no room, and
the results are as they were or empty. `Deed.rework` is what a deed does to the return, so the return after a
run is the one before it, reworked by one deed after the other (`Connection.draft?_after`). -/

namespace Callee

/-! ## Making something the results -/

namespace Message

/-- What the results in the message point to, if it has results. -/
def attached? (m : Message) : Option Pointer := m.root.bind Root.content?

theorem attached?_of_root {m : Message} {ret : Return} {payload : Payload}
    (hroot : m.root = some (.return ret)) (hout : ret.outcome = .results payload) :
    m.attached? = some payload.content :=
  content?_of_results hroot hout

/-- There is room for empty results, which have two words. -/
def HasPayloadRoom (m : Message) : Prop :=
  ∀ limit, m.arena.wordLimit = some limit → m.arena.wordsUsed + 2 ≤ limit

/-- There is room for results that point to a new struct. -/
def HasStructRoom (m : Message) (size : ObjectSize) : Prop :=
  ∀ limit, m.arena.wordLimit = some limit → m.arena.wordsUsed + 2 + size.total.toNat ≤ limit

/-- A new struct stands behind all others and is the results then. Or there is no room: not even for empty
    results, and nothing has changed, or not for the struct, and the results are empty. -/
theorem allocateResults_cases {m : Message} {ret : Return} (hroot : m.root = some (.return ret))
    (size : ObjectSize) :
    (∃ words, m.arena.wordsUsed ≤ words ∧ m.HasStructRoom size ∧
        m.allocateResults size = (.ok m.arena.structs.length, {
        arena := { m.arena with wordsUsed := words, structs := m.arena.structs ++ [.blank size] }
        root := some (.return { ret with
          outcome := .results { content := .struct m.arena.structs.length } }) })) ∨
      ∃ limit, m.arena.wordLimit = some limit ∧ ¬ m.HasStructRoom size ∧
        (m.allocateResults size = (.error (.sizeLimit limit), m) ∨
          ∃ words, m.arena.wordsUsed ≤ words ∧ m.allocateResults size = (.error (.sizeLimit limit), {
            arena := { m.arena with wordsUsed := words }
            root := some (.return { ret with outcome := .results {} }) })) := by
  unfold allocateResults
  rw [initResults_of_root hroot]
  cases ha : m.arena.allocate payloadWords with
  | error e =>
      obtain ⟨limit, hlimit, hlow, rfl⟩ := (m.arena.allocate_eq_error_iff _ _).1 ha
      refine Or.inr ⟨limit, hlimit, fun hroom => ?_, Or.inl rfl⟩
      have hfits := hroom limit hlimit
      have hwords : payloadWords.toNat = 2 := by decide
      omega
  | ok a =>
      obtain ⟨-, rfl⟩ := (m.arena.allocate_eq_ok_iff a _).1 ha
      simp only [Except.map, newStruct, Arena.newStruct]
      cases hb : Arena.allocate { m.arena with wordsUsed := m.arena.wordsUsed + payloadWords.toNat }
          size.total with
      | error e =>
          obtain ⟨limit, hlimit, hlow, rfl⟩ := (Arena.allocate_eq_error_iff _ _ _).1 hb
          refine Or.inr ⟨limit, hlimit, fun hroom => ?_, Or.inr ⟨_, Nat.le_add_right _ _, rfl⟩⟩
          exact absurd (hroom limit hlimit) (Nat.not_le_of_lt hlow)
      | ok b =>
          obtain ⟨hfits, rfl⟩ := (Arena.allocate_eq_ok_iff _ b _).1 hb
          refine Or.inl ⟨m.arena.wordsUsed + payloadWords.toNat + size.total.toNat, ?_, hfits, rfl⟩
          omega

/-- A capability is added to the table in any case. Then it is the results, or there is no room for results, and
    they are as they were. -/
theorem setBootstrap_cases {m : Message} {ret : Return} (hroot : m.root = some (.return ret))
    (cap : Capability) :
    (∃ words, m.arena.wordsUsed ≤ words ∧ m.HasPayloadRoom ∧ m.setBootstrap cap = (.ok (), {
        arena := { m.arena with wordsUsed := words, caps := m.arena.caps ++ [some cap] }
        root := some (.return { ret with
          outcome := .results { content := .capability m.arena.caps.length } }) })) ∨
      ∃ limit, m.arena.wordLimit = some limit ∧ limit < m.arena.wordsUsed + payloadWords.toNat ∧
        m.setBootstrap cap = (.error (.sizeLimit limit),
          { m with arena := { m.arena with caps := m.arena.caps ++ [some cap] } }) := by
  have hroot' : (m.addCapability cap).2.root = some (.return ret) := hroot
  unfold setBootstrap
  dsimp only
  rw [initResults_of_root hroot']
  cases ha : (m.addCapability cap).2.arena.allocate payloadWords with
  | error e =>
      obtain ⟨limit, hlimit, hlow, rfl⟩ := (Arena.allocate_eq_error_iff _ _ _).1 ha
      exact Or.inr ⟨limit, hlimit, hlow, rfl⟩
  | ok a =>
      obtain ⟨hfits, rfl⟩ := (Arena.allocate_eq_ok_iff _ a _).1 ha
      exact Or.inl ⟨_, Nat.le_add_right _ _, hfits, rfl⟩

end Message

/-! ## Deeds and the return -/

/-- What is done to the return of a running call. -/
def Deed.rework : Deed → Message → Message
  | .allocate size, m => (m.allocateResults size).2
  | .boot cap, m => (m.setBootstrap cap).2
  | .edit struct change, m => { m with arena := m.arena.rewritten struct change }
  | _, m => m

theorem Arena.grows_rewritten (a : Arena) (struct : Nat) (change : StructEdit) :
    a.Grows (a.rewritten struct change) := by
  unfold rewritten
  split
  · next heq => exact (edited heq).grows
  · exact .refl a

/-- What all moves of work on a message do every deed does, if writes to its structs do it as well. -/
theorem MessageRule.rework {R : Message → Message → Prop} (rule : MessageRule R)
    (edits : ∀ (m : Message) struct change, R m { m with arena := m.arena.rewritten struct change })
    (d : Deed) (m : Message) : R m (d.rework m) := by
  cases d with
  | allocate size => exact rule.allocateResults m size
  | boot cap => exact rule.setBootstrap m cap
  | edit struct change => exact edits m struct change
  | _ => exact rule.refl m

namespace Deed

theorem builds_rework (d : Deed) (m : Message) : m.Builds (d.rework m) :=
  Message.builds_rule.rework (fun m struct change =>
    Message.builds_of_arena (m.arena.grows_rewritten struct change)) d m

/-- What no deed takes from a return it keeps. -/
theorem foldl_rework {P : Message → Prop} (h : ∀ (d : Deed) m, P m → P (d.rework m)) (ds : List Deed)
    {m : Message} (hm : P m) : P (ds.foldl (fun m d => d.rework m) m) := by
  induction ds generalizing m with
  | nil => exact hm
  | cons d rest ih => exact ih (h d m hm)

theorem builds_foldl (ds : List Deed) (m : Message) : m.Builds (ds.foldl (fun m d => d.rework m) m) :=
  foldl_rework (fun d _ hm => hm.trans (d.builds_rework _)) ds (.refl m)

end Deed

/-- The return under construction that a view shows. -/
def View.draft? : View → Option Message
  | .running _ draft => draft
  | .completed _ => none

namespace View

/-- A call that has completed does not run again. -/
theorem after_completed (outcome : Except Error (Option (Arena × Pointer))) (deed : Deed) :
    ∃ outcome', (View.completed outcome).after deed = .completed outcome' := by
  rcases outcome with e | _ | ⟨a, p⟩ <;> cases deed <;> exact ⟨_, rfl⟩

theorem draft?_after {v : View} {d : Deed} {m' : Message} (h : (v.after d).draft? = some m') :
    ∃ m, v.draft? = some m ∧ m' = d.rework m := by
  cases v with
  | completed outcome =>
      obtain ⟨outcome', heq⟩ := View.after_completed outcome d
      rw [heq] at h
      exact absurd h (by simp [draft?])
  | running caller draft =>
      cases d with
      | allocate size | boot cap | edit struct change =>
          obtain ⟨m, hm, rfl⟩ := Option.map_eq_some_iff.1 h
          exact ⟨m, hm, rfl⟩
      | route name | cut => exact ⟨m', h, rfl⟩
      | giveUp => exact absurd h (by simp [View.after, draft?])
      | complete down result => cases result <;> exact absurd h (by simp [View.after, draft?])

theorem draft?_foldl {v : View} {ds : List Deed} {m' : Message}
    (h : (ds.foldl View.after v).draft? = some m') :
    ∃ m, v.draft? = some m ∧ m' = ds.foldl (fun m d => d.rework m) m := by
  induction ds generalizing v with
  | nil => exact ⟨m', h, rfl⟩
  | cons d rest ih =>
      obtain ⟨m₁, hm₁, rfl⟩ := ih h
      obtain ⟨m, hm, rfl⟩ := draft?_after hm₁
      exact ⟨m, hm, rfl⟩

end View

namespace Connection

/-- The return under construction of a call that is running, if it has one. -/
def draft? (c : Connection) (h : Handle) : Option Message := (c.view? h).bind View.draft?

theorem draft?_eq_some_iff (c : Connection) (h : Handle) (m : Message) :
    c.draft? h = some m ↔ ∃ caller, c.view? h = some (.running caller (some m)) := by
  unfold draft?
  rw [Option.bind_eq_some_iff]
  constructor
  · rintro ⟨v, hv, hm⟩
    cases v with
    | completed outcome => exact absurd hm (by simp [View.draft?])
    | running caller draft =>
        obtain rfl : draft = some m := hm
        exact ⟨caller, hv⟩
  · rintro ⟨caller, hv⟩
    exact ⟨_, hv, rfl⟩

/-- The return of a running call stands in its record. -/
theorem record_of_draft? {c : Connection} {h : Handle} {m : Message} (hm : c.draft? h = some m) :
    ∃ a e, c.answers.get? h.id = some a ∧ a.call = h.call ∧ a.openReturn h.id = .ok e ∧
      a.message = some e ∧ c.messages.message e = m := by
  obtain ⟨caller, hview⟩ := (c.draft?_eq_some_iff h m).1 hm
  obtain ⟨a, ha, hcall, hopen, -, hdraft⟩ := running_of_view? hview
  obtain ⟨e, he, rfl⟩ := Option.map_eq_some_iff.1 hdraft
  exact ⟨a, e, ha, hcall, (a.openReturn_eq_ok_iff h.id e).2 ⟨hopen, he⟩, he, rfl⟩

theorem draft?_of_record {c : Connection} {h : Handle} {a : Answer} {e : Envelope}
    (ha : c.answers.get? h.id = some a) (hcall : a.call = h.call) (hopen : a.state.resultsReady = false)
    (hmsg : a.message = some e) : c.draft? h = some (c.messages.message e) := by
  have hrun : c.viewOf a = .running a.caller (some (c.messages.message e)) := by simp [viewOf, hopen, hmsg]
  exact (c.draft?_eq_some_iff h _).2 ⟨a.caller, (c.view?_eq_some_iff h _).2 ⟨a, ha, hcall, hrun⟩⟩

theorem call_lt_of_draft? {c : Connection} (hc : Reachable c) {h : Handle} {m : Message}
    (hm : c.draft? h = some m) : h.call < c.nextCall := by
  obtain ⟨a, e, ha, hcall, -⟩ := record_of_draft? hm
  exact hcall ▸ hc.call_lt ha

/-- The return after a run is the one before it, reworked by what was done to the call since. -/
theorem draft?_of_after {c : Connection} (hc : Reachable c) {h : Handle} (hold : h.call < c.nextCall)
    {actions : List Action} {m' : Message} (hm' : (c.after actions).draft? h = some m') :
    ∃ m, c.draft? h = some m ∧ m' = (along (deeds h) c actions).foldl (fun m d => d.rework m) m := by
  obtain ⟨v', hv', hdraft⟩ := Option.bind_eq_some_iff.1 hm'
  obtain ⟨v, hv, rfl⟩ := view?_after hc hold actions hv'
  obtain ⟨m, hm, rfl⟩ := View.draft?_foldl hdraft
  exact ⟨m, Option.bind_eq_some_iff.2 ⟨v, hv, hm⟩, rfl⟩

theorem draft?_of_step {c : Connection} (hc : Reachable c) {h : Handle} (hold : h.call < c.nextCall)
    {action : Action} {m' : Message} (hm' : (c.step action).2.draft? h = some m') :
    ∃ m, c.draft? h = some m ∧ m' = (deeds h c action).foldl (fun m d => d.rework m) m := by
  have hafter : (c.after [action]).draft? h = some m' := hm'
  obtain ⟨m, hm, heq⟩ := draft?_of_after hc hold hafter
  exact ⟨m, hm, by simpa [along] using heq⟩

/-- What holds of a return when it is reserved, and is kept by what is done to it, holds of every return under
    construction. -/
theorem Reachable.draft_induction {P : Message → Prop}
    (reserved : ∀ limit id m,
      ({ arena := { wordLimit := limit } } : Message).startReturn id = .ok m → P m)
    (reworked : ∀ (d : Deed) m, P m → P (d.rework m)) {c : Connection} (hc : Reachable c) :
    ∀ h m, c.draft? h = some m → P m := by
  induction hc with
  | initial options => exact fun h m hm => absurd hm (by simp [draft?, view?, Connection.initial])
  | @step c action hprev ih =>
      intro h m' hm'
      obtain ⟨v', hv', hdraft⟩ := Option.bind_eq_some_iff.1 hm'
      rcases view?_step hprev h action v' hv' with ⟨v, hv, rfl⟩ | ⟨-, rfl⟩
      · obtain ⟨m, hm, rfl⟩ := View.draft?_foldl hdraft
        exact Deed.foldl_rework reworked _ (ih h m (Option.bind_eq_some_iff.2 ⟨v, hv, hm⟩))
      · have hreserved : c.reservation h.id = some m' := hdraft
        unfold reservation at hreserved
        split at hreserved
        · exact reserved _ _ _ (eq_ok_of_toOption hreserved)
        · exact absurd hreserved (by simp)

/-! ## Steps -/

theorem draft?_revise {c : Connection} {h : Handle} {m : Message} (hm : c.draft? h = some m)
    (f : Message → Message) : (c.revise h.id f).draft? h = some (f m) := by
  obtain ⟨caller, hview⟩ := (c.draft?_eq_some_iff h m).1 hm
  exact (draft?_eq_some_iff _ h _).2 ⟨caller, view?_revise hview f⟩

/-- A struct is made the results of a running call. The handle to it leads to the storage of its return. -/
theorem step_allocateResults {c : Connection} {h : Handle} {m : Message} (hm : c.draft? h = some m)
    (hheld : c.holds h = true) (size : ObjectSize) : ∃ r, c.arenaOf? h = some r ∧
      (c.step (.allocateResults h size)).1 = (match (m.allocateResults size).1 with
        | .ok index => .allocated ⟨r, index⟩
        | .error e => .failed (.allocatingResults e)) ∧
      (c.step (.allocateResults h size)).2.draft? h = some (m.allocateResults size).2 := by
  have hrevised := draft?_revise hm fun m => (m.allocateResults size).2
  rw [← allocateResults_eq_revise] at hrevised
  obtain ⟨a, e, ha, hcall, hopen, hmsg, rfl⟩ := record_of_draft? hm
  have hready : a.state.resultsReady = false := ((a.openReturn_eq_ok_iff h.id e).1 hopen).1
  refine ⟨e.arena, by simp [arenaOf?, ha, hcall, hready, hmsg], ?_, ?_⟩
  · simp only [step, hheld, if_true, allocateResults, ha, hopen]
    generalize (c.messages.message e).allocateResults size = built
    obtain ⟨outcome, m'⟩ := built
    cases outcome <;> rfl
  · rw [step_allocateResults_snd, if_pos hheld]
    exact hrevised

/-- A capability is made the results of a running call. -/
theorem step_setBootstrap {c : Connection} {h : Handle} {m : Message} (hm : c.draft? h = some m)
    (hheld : c.holds h = true) (cap : Capability) :
    (c.step (.setBootstrap h cap)).1 = (match (m.setBootstrap cap).1 with
        | .ok () => .done
        | .error e => .failed (.allocatingBootstrap e)) ∧
      (c.step (.setBootstrap h cap)).2.draft? h = some (m.setBootstrap cap).2 := by
  have hrevised := draft?_revise hm fun m => (m.setBootstrap cap).2
  rw [← setBootstrap_eq_revise] at hrevised
  obtain ⟨a, e, ha, -, hopen, -, rfl⟩ := record_of_draft? hm
  constructor
  · simp only [step, hheld, if_true, setBootstrap, ha, hopen]
    generalize (c.messages.message e).setBootstrap cap = built
    obtain ⟨outcome, m'⟩ := built
    cases outcome <;> rfl
  · rw [step_setBootstrap_snd, if_pos hheld]
    exact hrevised

end Connection

end Callee
