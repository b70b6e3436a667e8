import Callee.Proofs.Attaching
import Callee.Proofs.Unreserved

set_option autoImplicit false

/-! # Stranded capabilities

Making a capability the results of a call first puts it in the table of capabilities of the return and then
asks for two words. If these are not to be had the capability stays in the table. It is stranded there. No
words are ever given back, and a table of descriptors with anything in it has three, so there is no room for one
when the call completes, whatever is done to the return before (`Message.Stranded`). Hence no export comes of
the capability, nor of any other in that table (`Reachable.strands`). -/

namespace Callee

/-! ## Returns without descriptors -/

/-- The message is a return, and no descriptors stand beside its results. -/
def Tableless (root : Option Root) : Prop :=
  ∃ ret, root = some (.return ret) ∧ ∀ payload, ret.outcome = .results payload → payload.capTable = []

theorem capTable_of_tableless {m : Message} (hm : Tableless m.root) {payload : Payload}
    (h : m.getResults = .ok payload) : payload.capTable = [] := by
  obtain ⟨ret, hroot, hplain⟩ := hm
  obtain ⟨ret', hroot', hout⟩ := Message.getResults_eq_ok_iff.1 h
  obtain rfl := Root.return.inj (Option.some.inj (hroot.symm.trans hroot'))
  exact hplain payload hout

/-- So no export is named. -/
theorem hosted_of_tableless {e : Envelope} (he : Tableless e.root) : e.hosted = [] := by
  obtain ⟨⟨id, release, outcome⟩, hroot, hplain⟩ := he
  unfold Envelope.hosted
  rw [hroot]
  cases outcome with
  | results payload => simp [Root.hosted, Outcome.hosted, hplain payload rfl]
  | unset | exception exc => rfl

namespace Deed

/-- Whatever is done to a return under construction, its results are what they were or without descriptors, and
    no words are given back. -/
theorem rework_cases (d : Deed) {m : Message} {ret : Return} (hroot : m.root = some (.return ret)) :
    m.arena.wordsUsed ≤ (d.rework m).arena.wordsUsed ∧ ((d.rework m).root = m.root ∨
      ∃ content, (d.rework m).root = some (.return { ret with outcome := .results { content := content } })) := by
  cases d with
  | allocate size =>
      simp only [rework]
      rcases Message.allocateResults_cases hroot size with
        ⟨words, hused, -, heq⟩ | ⟨limit, -, -, heq | ⟨words, hused, heq⟩⟩ <;> rw [heq]
      · exact ⟨hused, Or.inr ⟨_, rfl⟩⟩
      · exact ⟨Nat.le_refl _, Or.inl rfl⟩
      · exact ⟨hused, Or.inr ⟨_, rfl⟩⟩
  | boot cap =>
      simp only [rework]
      rcases Message.setBootstrap_cases hroot cap with
        ⟨words, hused, -, heq⟩ | ⟨limit, -, -, heq⟩ <;> rw [heq]
      · exact ⟨hused, Or.inr ⟨_, rfl⟩⟩
      · exact ⟨Nat.le_refl _, Or.inl rfl⟩
  | edit struct change => exact ⟨(m.arena.charges_rewritten struct change).more, Or.inl rfl⟩
  | _ => exact ⟨Nat.le_refl _, Or.inl rfl⟩

theorem tableless_rework (d : Deed) {m : Message} (hm : Tableless m.root) : Tableless (d.rework m).root := by
  obtain ⟨ret, hroot, hplain⟩ := hm
  rcases (d.rework_cases hroot).2 with hsame | ⟨content, hnew⟩
  · exact ⟨ret, hsame.trans hroot, hplain⟩
  · refine ⟨_, hnew, fun payload hout => ?_⟩
    obtain rfl := Outcome.results.inj hout
    rfl

end Deed

namespace Message

theorem tableless_startReturn {limit : Option Nat} {id : AnswerId} {m : Message}
    (h : ({ arena := { wordLimit := limit } } : Message).startReturn id = .ok m) : Tableless m.root := by
  obtain ⟨a, -, rfl⟩ := startReturn_eq_ok h
  exact ⟨_, rfl, fun payload hout => absurd hout (by simp)⟩

theorem tableless_writeException {m : Message} (hm : Tableless m.root) (e : Error) :
    Tableless (m.writeException e).2.root := by
  obtain ⟨ret, hroot, hplain⟩ := hm
  rcases writeException_cases hroot e with ⟨-, -, hwritten⟩ | ⟨-, limit, -, -, hsame | hwritten⟩
  · exact ⟨_, hwritten, fun payload hout => absurd hout (by simp)⟩
  · exact ⟨ret, hsame.trans hroot, hplain⟩
  · exact ⟨_, hwritten, fun payload hout => absurd hout (by simp)⟩

/-! ## Words that are missing -/

/-- There are capabilities in the table of the return, and no words are left for results. -/
structure Stranded (m : Message) : Prop where
  full : ∃ limit, m.arena.wordLimit = some limit ∧ limit < m.arena.wordsUsed + payloadWords.toNat
  filled : m.arena.caps ≠ []
  tableless : Tableless m.root

/-- Words are charged, and capabilities added. -/
theorem Stranded.mono {m m' : Message} (hm : m.Stranded) (limit : m'.arena.wordLimit = m.arena.wordLimit)
    (used : m.arena.wordsUsed ≤ m'.arena.wordsUsed) (caps : m.arena.caps.length ≤ m'.arena.caps.length)
    (tableless : Tableless m'.root) : m'.Stranded := by
  obtain ⟨bound, hbound, hlow⟩ := hm.full
  refine ⟨⟨bound, limit.trans hbound, by omega⟩, fun hnone => hm.filled ?_, tableless⟩
  rw [hnone] at caps
  exact List.eq_nil_of_length_eq_zero (Nat.le_zero.1 caps)

/-- What no deed mends. -/
theorem Stranded.rework {m : Message} (hm : m.Stranded) (d : Deed) : (d.rework m).Stranded := by
  obtain ⟨ret, hroot, -⟩ := hm.tableless
  have hgrows := (d.builds_rework m).arena
  exact hm.mono hgrows.limit (d.rework_cases hroot).1 hgrows.caps (d.tableless_rework hm.tableless)

/-- Not even empty results are put in. -/
theorem Stranded.ensureResults {m : Message} (hm : m.Stranded) : m.ensureResults.1 = m := by
  obtain ⟨ret, hroot, -⟩ := hm.tableless
  obtain ⟨limit, hlimit, hlow⟩ := hm.full
  unfold Message.ensureResults
  cases hres : m.getResults with
  | ok payload => rfl
  | error e =>
      have hfull := (m.arena.allocate_eq_error_iff payloadWords _).2 ⟨limit, hlimit, hlow, rfl⟩
      simp [initResults_of_root hroot, hfull, Except.map]

/-- A table with anything in it takes more words than empty results. -/
theorem Stranded.not_hasTableRoom {m : Message} (hm : m.Stranded) : ¬ m.HasTableRoom := by
  intro hroom
  obtain ⟨limit, hlimit, hlow⟩ := hm.full
  have hfits := hroom limit hlimit
  have hsome : 0 < m.arena.caps.length := List.length_pos_iff.2 hm.filled
  have hwords : payloadWords.toNat = 2 := by decide
  omega

/-- The return goes out without descriptors. -/
theorem Stranded.writeResults {m : Message} (hm : m.Stranded) (hfew : m.arena.caps.length < 2 ^ 31)
    (x : Exports) : Tableless (x.writeResults m false).message.root := by
  unfold Exports.writeResults
  simp only [Bool.false_eq_true, if_false, hm.ensureResults]
  rcases h : (x.writeDescriptors m).value with ⟨e | ids, m', x'⟩
  · have hroot := (Exports.undescribed_of_error hfew h).root
    exact hroot ▸ hm.tableless
  · exact absurd (Exports.describable_of_ok hfew h).1 hm.not_hasTableRoom

end Message

namespace Connection

open Books

/-- The return of a call before an action, while the call is running. -/
def drafts (h : Handle) (c : Connection) (_ : Action) : List Message := (c.draft? h).toList

/-- The return of the call is stranded if the call is running, with so few slots that the words of a table for them
    fit into 32 bits. -/
def HasStranded (c : Connection) (h : Handle) : Prop :=
  ∀ m, c.draft? h = some m → m.Stranded ∧ m.arena.caps.length < 2 ^ 31

/-- Nothing that has become of a call tells of an export. -/
structure TellsNone (c : Connection) (h : Handle) : Prop where
  old : h.call < c.nextCall
  own : ∀ id a, c.answers.get? id = some a → a.call = h.call → id = h.id ∧ a.exports = []
  queued : ∀ {t k e}, c.QueuedAt t k e → k.call = h.call → Tableless e.root
  sent : ∀ m ∈ c.sends h.call, Tableless m.root

variable {c : Connection} {h : Handle}

theorem tableless_of_draft? (hc : Reachable c) {m : Message} (hm : c.draft? h = some m) : Tableless m.root :=
  hc.draft_induction (P := fun m => Tableless m.root) (fun _ _ _ => Message.tableless_startReturn)
    (fun d _ => d.tableless_rework) h m hm

/-- A call that is running has told nothing yet. -/
theorem tellsNone_of_building (hc : Reachable c) {p : Holder} (hold : c.books.Holds p h .building) :
    c.TellsNone h := by
  obtain ⟨a, ha, hcall, -, hopen⟩ := hc.custody.found_at hold
  constructor
  case old => exact hcall ▸ hc.call_lt ha
  case own =>
    intro id b hb hown
    obtain ⟨rfl, rfl⟩ := hc.record_unique ha hb (hown.trans hcall.symm)
    exact ⟨rfl, ((hc.coherent_record ha).of_open hopen).2.2⟩
  case queued =>
    intro t k e hq hown
    -- nobody else holds the return of the call
    obtain ⟨f, hother⟩ := hq.holds
    obtain ⟨rfl, rfl⟩ := hc.holds_unique hold hother hown
    exact absurd (hold.symm.trans hother) (by simp)
  case sent =>
    intro m hm
    rw [sends_of_building hc hold] at hm
    exact absurd hm List.not_mem_nil

namespace TellsNone

/-- What is left with the sender when the return of the call begins. -/
theorem of_begun (hs : c.TellsNone h) (hc : Reachable c)
    (hstranded : c.HasStranded h) {t : TaskId} {k : Handle} {result : Except Error Unit} {e : Envelope}
    (hold : c.books.taskOwes t = some (k, .building)) (hcall : k.call = h.call)
    (hbegun : (c.beginReturn k.id result).1.bind BegunReturn.envelope = some e) :
    Tableless e.root := by
  obtain ⟨a, d, m, ha, hmsg, rfl, -, hseals⟩ := sealed_of_beginReturn hbegun
  obtain ⟨a', ha', hown, -, hopen⟩ := hc.custody.found_at (p := .task t) hold
  obtain rfl := Option.some.inj (ha.symm.trans ha')
  have hid : k.id = h.id := (hs.own k.id a ha (hown.trans hcall)).1
  have hdraft : c.draft? h = some (c.messages.message d) :=
    draft?_of_record (hid ▸ ha) (hown.trans hcall) hopen hmsg
  obtain ⟨hlost, hfew⟩ := hstranded _ hdraft
  show Tableless m.root
  cases hseals with
  | results => exact hlost.writeResults hfew c.exports
  | exception x => exact Message.tableless_writeException hlost.tableless x

/-- What a task has on its way for the call. -/
theorem of_onItsWay (hs : c.TellsNone h) (hc : Reachable c)
    (hstranded : c.HasStranded h) {t : TaskId} {work : Work} {guard : Option Token} {e : Envelope}
    (hget : c.tasks.get? t = some ⟨work, guard⟩)
    (hway : c.onItsWay work = some (h.call, .waiting e)) : Tableless e.root := by
  rcases onItsWay_cases hway with ⟨k, f, rfl, hcall⟩ | ⟨k, result, d, rfl, hcall, heq, hbegun⟩
  · exact hs.queued ⟨f, guard, hget⟩ hcall
  · obtain rfl := SendStage.waiting.inj heq
    have hold : c.books.taskOwes t = some (k, .building) := taskOwes_of_get? (b := c.books) hget
    exact hs.of_begun hc hstranded hold hcall hbegun

/-- No reference is handed out for the call. -/
theorem not_mem_handsOut (hs : c.TellsNone h) (hc : Reachable c) {action : Action}
    (hstranded : ∀ t, action = .poll t → c.HasStranded h) (x : ExportId) : (h.call, x) ∉ c.handsOut action := by
  intro hin
  cases action with
  | poll t =>
      cases c.opening_poll t with
      | nothing transfer out back =>
          rw [out] at hin
          exact absurd hin List.not_mem_nil
      | finishes isFinish => exact absurd isFinish (by simp)
      | @begins t' k result owes transfer out back =>
          rw [out] at hin
          obtain ⟨x', hx', heq⟩ := List.mem_map.1 hin
          obtain ⟨hcall, rfl⟩ := Prod.mk.inj heq
          cases hfirst : (c.beginReturn k.id result).1 with
          | none => simp [hfirst] at hx'
          | some begun =>
              cases henvelope : begun.envelope with
              | none => simp [hfirst, BegunReturn.hosted, henvelope] at hx'
              | some e =>
                  have hplain : Tableless e.root :=
                    hs.of_begun hc (hstranded t rfl) owes hcall
                      (by rw [hfirst]; exact henvelope)
                  simp [hfirst, BegunReturn.hosted, henvelope, hosted_of_tableless hplain] at hx'
  | _ => exact absurd hin (by simp [handsOut])

/-- None comes back. -/
theorem not_mem_takesBack (hs : c.TellsNone h) (action : Action) (x : ExportId) :
    (h.call, x) ∉ c.takesBack action := by
  intro hin
  cases action with
  | finish id releaseCaps =>
      simp only [takesBack] at hin
      split at hin
      · next a ha =>
          obtain ⟨x', hx', heq⟩ := List.mem_map.1 hin
          have hnone := (hs.own id a ha (Prod.mk.inj heq).1).2
          simp [Answer.givenBack, hnone] at hx'
      · exact absurd hin List.not_mem_nil
  | _ => exact absurd hin (by simp [takesBack])

/-- An action carries this on, provided the return is stranded if it begins. -/
theorem step (hs : c.TellsNone h) (hc : Reachable c) {action : Action}
    (hstranded : ∀ t, action = .poll t → c.HasStranded h) : (c.step action).2.TellsNone h := by
  constructor
  case old => exact Nat.lt_of_lt_of_le hs.old (c.ages_step action).1
  case own =>
    intro id b hb hown
    rcases record_step hc action hb with ⟨a, ha, hages, hbalance⟩ | ⟨hnew, -⟩
    · have hcall : a.call = h.call := hages.call.symm.trans hown
      obtain ⟨hid, hnone⟩ := hs.own id a ha hcall
      refine ⟨hid, List.eq_nil_iff_forall_not_mem.2 fun x => ?_⟩
      -- nothing was noted, and nothing was handed out
      have hout := List.count_eq_zero.2 (hs.not_mem_handsOut hc hstranded x)
      have hsum := hbalance x
      rw [hcall, hout, hnone] at hsum
      exact List.count_eq_zero.1 (Nat.add_eq_zero_iff.1 hsum.symm).2
    · exact absurd hs.old (Nat.not_lt_of_le (hown ▸ hnew))
  case queued =>
    rintro t k e ⟨f, guard, hget⟩ hown
    cases c.taskStep action hget with
    | kept before idle => exact hs.queued ⟨f, guard, before⟩ hown
    | spawned number fresh => exact fresh.elim
    | @ran before work isPoll found live left task =>
        obtain rfl := (Task.mk.inj task).1
        obtain ⟨work, guard'⟩ := before
        obtain ⟨-, hway, -⟩ := waiting_of_run left
        exact hs.of_onItsWay hc (hstranded t isPoll) found (hown ▸ hway)
  case sent =>
    intro m hm
    rcases (c.mem_sends_step_iff action h.call m).1 hm with hin | hbefore
    · obtain ⟨t, ⟨work, guard⟩, e, hpoll, hget, -, hway, -, rfl⟩ := (c.mem_handsOver_iff _ _ _).1 hin
      exact hs.of_onItsWay hc (hstranded t hpoll) hget hway
    · exact hs.sent m hbefore

/-- It is carried on over every run that begins with a stranded return. -/
theorem after (hs : c.TellsNone h) (hc : Reachable c) (hstranded : ∀ m, c.draft? h = some m → m.Stranded)
    {actions : List Action} (hfew : ∀ m ∈ along (drafts h) c actions, m.arena.caps.length < 2 ^ 31) :
    (c.after actions).TellsNone h ∧
      ∀ x, (h.call, x) ∉ along handsOut c actions ∧ (h.call, x) ∉ along takesBack c actions := by
  induction actions generalizing c with
  | nil => exact ⟨hs, fun x => ⟨List.not_mem_nil, List.not_mem_nil⟩⟩
  | cons action rest ih =>
      have hnow : ∀ t, action = .poll t → c.HasStranded h := fun _ _ m hm =>
        ⟨hstranded m hm, hfew m (List.mem_append_left _ (Option.mem_toList.2 hm))⟩
      have hnext : ∀ m, (c.step action).2.draft? h = some m → m.Stranded := by
        intro m' hm'
        obtain ⟨m, hm, rfl⟩ := draft?_of_step hc hs.old hm'
        exact Deed.foldl_rework (fun d _ hlost => hlost.rework d) _ (hstranded m hm)
      obtain ⟨hend, hmoved⟩ := ih (hs.step hc hnow) (.step action hc) hnext
        fun m hm => hfew m (List.mem_append_right _ hm)
      refine ⟨hend, fun x => ⟨fun hin => ?_, fun hin => ?_⟩⟩
      · rcases List.mem_append.1 hin with hfirst | hlater
        · exact hs.not_mem_handsOut hc hnow x hfirst
        · exact (hmoved x).1 hlater
      · rcases List.mem_append.1 hin with hfirst | hlater
        · exact hs.not_mem_takesBack action x hfirst
        · exact (hmoved x).2 hlater

end TellsNone

/-! ## After a failure -/

/-- An attempt that fails strands the capability. -/
theorem stranded_of_failed (hc : Reachable c) {m : Message} (hm : c.draft? h = some m) {cap : Capability}
    {e : Error} (hfailed : (c.step (.setBootstrap h cap)).1 = .failed e) :
    ∃ m', (c.step (.setBootstrap h cap)).2.draft? h = some m' ∧
      m'.arena.caps = m.arena.caps ++ [some cap] ∧ m'.Stranded := by
  have hattaches : (Action.setBootstrap h cap).attaches h = true := by simp [Action.attaches]
  have hheld : c.holds h = true := holds_of_attaches hattaches (by simp [hfailed])
  obtain ⟨ret, hroot, hplain⟩ := tableless_of_draft? hc hm
  obtain ⟨hresult, hnext⟩ := step_setBootstrap hm hheld cap
  rw [hresult] at hfailed
  rw [hnext]
  rcases Message.setBootstrap_cases hroot cap with ⟨words, -, -, heq⟩ | ⟨limit, hlimit, hlow, heq⟩ <;>
    rw [heq] at hfailed ⊢
  · exact absurd hfailed (by simp)
  · exact ⟨_, rfl, rfl, ⟨limit, hlimit, hlow⟩, by simp, ret, hroot, hplain⟩

/-- The exports in a part of the ledger that is about other calls. -/
def others (h : Handle) (ledger : List (CallId × ExportId)) : List ExportId :=
  (ledger.filter fun p => p.1 ≠ h.call).map Prod.snd

theorem others_eq {ledger : List (CallId × ExportId)} (hnone : ∀ x, (h.call, x) ∉ ledger) :
    others h ledger = ledger.map Prod.snd := by
  unfold others
  rw [List.filter_eq_self.2]
  rintro ⟨call, x⟩ hin
  refine decide_eq_true fun hcall => hnone x ?_
  obtain rfl : call = h.call := hcall
  exact hin

/-- What becomes of a call, and of the exports, over a run that begins with an attempt to make a capability the
    results of the call. -/
structure Strands (c : Connection) (h : Handle) (cap : Capability) (more : List Action) : Prop where
  /-- The capability is in the table of the return, if there is a return. -/
  registered : ∀ m, c.draft? h = some m → ∃ m', (c.step (.setBootstrap h cap)).2.draft? h = some m' ∧
    m'.arena.caps = m.arena.caps ++ [some cap]
  /-- The return that goes out has no descriptors. -/
  sent : ∀ m ∈ (c.after (.setBootstrap h cap :: more)).sends h.call, ∀ payload, m.getResults = .ok payload →
    payload.capTable = []
  /-- The record of the call notes no exports. -/
  unlisted : ∀ id a, (c.after (.setBootstrap h cap :: more)).answers.get? id = some a → a.call = h.call →
    a.exports = []
  /-- No references are handed out or come back for the call, -/
  unmoved : ∀ x, (h.call, x) ∉ along handsOut c (.setBootstrap h cap :: more) ∧
    (h.call, x) ∉ along takesBack c (.setBootstrap h cap :: more)
  /-- and what is counted is what is handed out and comes back for other calls. -/
  uncounted : (c.after (.setBootstrap h cap :: more)).link = .up → ∀ x,
    (c.after (.setBootstrap h cap :: more)).exports.refs x +
        (others h (along takesBack c (.setBootstrap h cap :: more))).count x =
      c.exports.refs x + (others h (along handsOut c (.setBootstrap h cap :: more))).count x

/-- Nothing is ever exported for a call after a capability failed to become its results. -/
theorem Reachable.strands (hc : Reachable c) {cap : Capability} {e : Error}
    (hfailed : (c.step (.setBootstrap h cap)).1 = .failed e) {more : List Action}
    (hfew : ∀ m ∈ along (drafts h) c (.setBootstrap h cap :: more), m.arena.caps.length < 2 ^ 31) :
    c.Strands h cap more := by
  have hattaches : (Action.setBootstrap h cap).attaches h = true := by simp [Action.attaches]
  have hheld : c.holds h = true := holds_of_attaches hattaches (by simp [hfailed])
  have hold := holds_executor hheld
  have hbefore : c.TellsNone h := tellsNone_of_building hc hold
  have htells : (c.step (.setBootstrap h cap)).2.TellsNone h :=
    hbefore.step hc fun t hpoll => absurd hpoll (by simp)
  have hstranded : ∀ m, (c.step (.setBootstrap h cap)).2.draft? h = some m → m.Stranded := by
    intro m' hm'
    obtain ⟨m, hm, -⟩ := draft?_of_step hc hbefore.old hm'
    obtain ⟨m'', hm'', -, hlost⟩ := stranded_of_failed hc hm hfailed
    obtain rfl := Option.some.inj (hm'.symm.trans hm'')
    exact hlost
  obtain ⟨hend, hmoved⟩ := htells.after (.step _ hc) hstranded fun m hm => hfew m (List.mem_append_right _ hm)
  -- the attempt itself moves nothing
  have hunmoved : ∀ x, (h.call, x) ∉ along handsOut c (.setBootstrap h cap :: more) ∧
      (h.call, x) ∉ along takesBack c (.setBootstrap h cap :: more) := hmoved
  constructor
  case registered =>
    intro m hm
    obtain ⟨m', hm', hcaps, -⟩ := stranded_of_failed hc hm hfailed
    exact ⟨m', hm', hcaps⟩
  case sent => exact fun m hm payload hresults => capTable_of_tableless (hend.sent m hm) hresults
  case unlisted => exact fun id a ha hown => (hend.own id a ha hown).2
  case unmoved => exact hunmoved
  case uncounted =>
    intro hup x
    rw [others_eq fun y => (hunmoved y).1, others_eq fun y => (hunmoved y).2]
    exact refs_after hc _ x hup

/-- A run under a limit of 10 words. A capability becomes the results of a call, and then a struct, which leaves no
    words. -/
def strandingRun : List Action :=
  [.configure (.wordLimit (some 10)), .newAnswer 1 "call", .configure (.wordLimit none),
    .newAnswer 2 "other", .setBootstrap ⟨1, 0⟩ ⟨"door", 5⟩, .allocateResults ⟨1, 0⟩ ⟨1, 0⟩]

/-- What comes after another capability found no room: another call returns the first one too, both returns go
    out, and the peer is done with the call and gives back what it was handed for it. -/
def strandingRest : List Action :=
  [.setBootstrap ⟨2, 1⟩ ⟨"door", 5⟩, .sendReturn ⟨1, 0⟩ (.ok ()) none, .sendReturn ⟨2, 1⟩ (.ok ()) none,
    .poll 0, .poll 1, .finish 1 true]

/-- Of the two capabilities in its table the call exports neither; one is exported for the other call. -/
theorem strands_door_and_bell :
    let c := (initial {}).after strandingRun
    let d := c.after (.setBootstrap ⟨1, 0⟩ ⟨"bell", 6⟩ :: strandingRest)
    (c.step (.setBootstrap ⟨1, 0⟩ ⟨"bell", 6⟩)).1 = .failed (.allocatingBootstrap (.sizeLimit 10)) ∧
      (d.sends 0).map (fun m => (m.attached?, m.hosted)) = [(some (.struct 0), [])] ∧
      (d.sends 1).map (fun m => (m.attached?, m.hosted)) = [(some (.capability 0), [0])] ∧
      d.exports.refs 0 = 1 ∧ c.Strands ⟨1, 0⟩ ⟨"bell", 6⟩ strandingRest := by
  intro c d
  have hfailed : (c.step (.setBootstrap ⟨1, 0⟩ ⟨"bell", 6⟩)).1 =
    .failed (.allocatingBootstrap (.sizeLimit 10)) := by decide +kernel
  have hfew : ∀ m ∈ along (drafts ⟨1, 0⟩) c (.setBootstrap ⟨1, 0⟩ ⟨"bell", 6⟩ :: strandingRest),
    m.arena.caps.length < 2 ^ 31 := by decide +kernel
  exact ⟨hfailed, by decide +kernel, by decide +kernel, by decide +kernel,
    ((Reachable.initial {}).after _).strands hfailed hfew⟩

end Connection

end Callee
