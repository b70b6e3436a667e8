import Callee.Proofs.Drafting
import Callee.Proofs.Noninterference
import Callee.Proofs.SendingOnce
import Callee.Proofs.Stores

set_option autoImplicit false

/-! # What a return holds when it goes out

A return is reserved with nothing in it and is to hold results or an exception when it goes out, empty results
if nothing else. All that is charged to its message, so it goes by the words: `Drafted` says what a return
under construction has been charged, whatever was built in it, and `HasOutcome` what follows for a return that
goes out. It holds something exactly if its limit leaves room for empty results. Where it does not, they
cannot be put in, which is reported, and the return goes out all the same with nothing in it
(`unset_after_raising`). -/

namespace Callee

/-- The words of a return that holds nothing: five. -/
def bareWords : Nat := (messageWords + returnWords).toNat

/-- The fewest words of a return that holds something, those of one with empty results: seven. -/
def leastWords : Nat := bareWords + payloadWords.toNat

/-! ## Charges -/

namespace Arena

/-- What was charged is within the limit. -/
def Fits (a : Arena) : Prop := ∀ limit, a.wordLimit = some limit → a.wordsUsed ≤ limit

/-- Some words are charged, within the limit. -/
structure Charges (a b : Arena) : Prop where
  limit : b.wordLimit = a.wordLimit
  more : a.wordsUsed ≤ b.wordsUsed
  fits : a.Fits → b.Fits

/-- What changes neither the limit nor the charge. -/
theorem charges_of_eq {a b : Arena} (limit : b.wordLimit = a.wordLimit) (used : b.wordsUsed = a.wordsUsed) :
    a.Charges b where
  limit := limit
  more := Nat.le_of_eq used.symm
  fits h := by
    unfold Fits
    rw [limit, used]
    exact h

theorem charges_of_charge {a b : Arena} {words : Nat} (h : a.charge words = .ok b) : a.Charges b := by
  obtain ⟨hfits, rfl⟩ := (charge_eq_ok_iff a b words).1 h
  exact ⟨rfl, Nat.le_add_right _ _, fun _ => hfits⟩

theorem charges_newStruct {a b : Arena} {size : ObjectSize} {index : Nat}
    (h : a.newStruct size = .ok (index, b)) : a.Charges b := by
  obtain ⟨d, ha, -, rfl⟩ := newStruct_eq_ok h
  obtain ⟨hlimit, hmore, hfits⟩ := charges_of_charge ha
  exact ⟨hlimit, hmore, hfits⟩

/-- A write through a handle to a struct charges what it allocates. -/
theorem charges_edit {a b : Arena} {struct : Nat} {change : StructEdit} {child : Option Nat}
    (h : a.edit struct change = .ok (child, b)) : a.Charges b := by
  rcases edit_cases h with ⟨offset, value, -, -, hset⟩ | ⟨index, cap, -, -, rfl⟩ |
    ⟨index, size, i, d, -, -, hnew, rfl⟩
  · obtain rfl := setWord_eq_ok hset
    exact charges_of_eq rfl rfl
  · exact charges_of_eq rfl rfl
  · obtain ⟨hlimit, hmore, hfits⟩ := charges_newStruct hnew
    exact ⟨hlimit, hmore, hfits⟩

theorem charges_rewritten (a : Arena) (struct : Nat) (change : StructEdit) :
    a.Charges (a.rewritten struct change) := by
  unfold rewritten
  split
  · next heq => exact charges_edit heq
  · exact charges_of_eq rfl rfl

/-- An arena without structs is not written to. -/
theorem rewritten_of_empty {a : Arena} (h : a.structs = []) (struct : Nat) (change : StructEdit) :
    a.rewritten struct change = a := by
  have hwords : a.wordCount struct = 0 := by simp [wordCount, h]
  have hfields : a.fieldCount struct = 0 := by simp [fieldCount, h]
  cases change <;> simp [rewritten, edit, setWord, setCapability, initStruct, hwords, hfields, Except.map]

end Arena

namespace Message

/-! ## Returns under construction -/

/-- A return under construction, in words: it keeps to its limit, and nothing was charged for it but itself as
    long as it holds nothing. -/
structure Drafted (m : Message) (ret : Return) : Prop where
  root : m.root = some (.return ret)
  fits : m.arena.Fits
  bare : ret.outcome = .unset → m.arena.wordsUsed = bareWords ∧ m.arena.structs = []
  paid : ret.outcome ≠ .unset → leastWords ≤ m.arena.wordsUsed

/-- The message is a return under construction. -/
def IsDraft (m : Message) : Prop := ∃ ret, m.Drafted ret

theorem Drafted.getReturn {m : Message} {ret : Return} (h : m.Drafted ret) : m.getReturn = .ok ret :=
  getReturn_eq_ok_iff.2 h.root

theorem Drafted.bareWords_le {m : Message} {ret : Return} (h : m.Drafted ret) :
    bareWords ≤ m.arena.wordsUsed := by
  by_cases hout : ret.outcome = .unset
  · exact Nat.le_of_eq (h.bare hout).1.symm
  · exact Nat.le_trans (Nat.le_add_right _ _) (h.paid hout)

theorem isDraft_startReturn {limit : Option Nat} {id : AnswerId} {m : Message}
    (h : ({ arena := { wordLimit := limit } } : Message).startReturn id = .ok m) : m.IsDraft := by
  obtain ⟨a, ha, rfl⟩ := startReturn_eq_ok h
  obtain ⟨hfits, rfl⟩ := (Arena.allocate_eq_ok_iff _ a _).1 ha
  exact ⟨_, rfl, hfits, fun _ => ⟨Nat.zero_add _, rfl⟩, fun hout => absurd rfl hout⟩

/-- Empty results are put in, and paid for. -/
theorem Drafted.initResults {m m' : Message} {ret : Return} (hm : m.Drafted ret)
    (h : m.initResults = .ok m') : m'.Drafted { ret with outcome := .results {} } := by
  obtain ⟨ret', a, hroot, ha, rfl⟩ := initResults_eq_ok h
  obtain rfl := Root.return.inj (Option.some.inj (hm.root.symm.trans hroot))
  obtain ⟨hfits, rfl⟩ := (Arena.allocate_eq_ok_iff _ a _).1 ha
  exact ⟨rfl, hfits, fun hout => absurd hout (by simp), fun _ => Nat.add_le_add_right hm.bareWords_le _⟩

/-- More is charged for a return that holds something. -/
theorem Drafted.charge {m : Message} {ret : Return} (hm : m.Drafted ret) (hout : ret.outcome ≠ .unset)
    {a : Arena} (h : m.arena.Charges a) : ({ m with arena := a } : Message).Drafted ret where
  root := hm.root
  fits := h.fits hm.fits
  bare hunset := absurd hunset hout
  paid _ := Nat.le_trans (hm.paid hout) h.more

theorem Drafted.newStruct {m m' : Message} {ret : Return} (hm : m.Drafted ret)
    (hout : ret.outcome ≠ .unset) {size : ObjectSize} {index : Nat}
    (h : m.newStruct size = .ok (index, m')) : m'.Drafted ret := by
  obtain ⟨a, ha, rfl⟩ := newStruct_eq_ok h
  exact hm.charge hout (Arena.charges_newStruct ha)

/-- The results of a return are changed. -/
theorem Drafted.modifyResults {m m' : Message} {ret : Return} (hm : m.Drafted ret) {f : Payload → Payload}
    (h : m.modifyResults f = .ok m') : m'.IsDraft := by
  obtain ⟨ret', payload, hroot, hout, rfl⟩ := modifyResults_eq_ok_iff.1 h
  obtain rfl := Root.return.inj (Option.some.inj (hm.root.symm.trans hroot))
  exact ⟨_, rfl, hm.fits, fun hunset => absurd hunset (by simp), fun _ => hm.paid (by simp [hout])⟩

theorem isDraft_allocateResults {m : Message} (hm : m.IsDraft) (size : ObjectSize) :
    (m.allocateResults size).2.IsDraft := by
  obtain ⟨ret, hret⟩ := hm
  unfold allocateResults
  split
  · exact ⟨ret, hret⟩
  · next m₁ hinit =>
      have h₁ := hret.initResults hinit
      split
      · exact ⟨_, h₁⟩
      · next index m₂ hnew =>
          have h₂ := h₁.newStruct (by simp) hnew
          split
          · exact ⟨_, h₂⟩
          · next m₃ hset => exact h₂.modifyResults hset

theorem isDraft_setBootstrap {m : Message} (hm : m.IsDraft) (cap : Capability) :
    (m.setBootstrap cap).2.IsDraft := by
  obtain ⟨ret, hret⟩ := hm
  have h₁ : (m.addCapability cap).2.Drafted ret := ⟨hret.root, hret.fits, hret.bare, hret.paid⟩
  unfold setBootstrap
  dsimp only
  split
  · exact ⟨ret, h₁⟩
  · next m₂ hinit =>
      have h₂ := h₁.initResults hinit
      split
      · exact ⟨_, h₂⟩
      · next m₃ hset => exact h₂.modifyResults hset

/-- A write through a handle to a struct. There is no such handle to a return that holds nothing. -/
theorem isDraft_rewritten {m : Message} (hm : m.IsDraft) (struct : Nat) (change : StructEdit) :
    ({ m with arena := m.arena.rewritten struct change } : Message).IsDraft := by
  obtain ⟨ret, hret⟩ := hm
  by_cases hout : ret.outcome = .unset
  · rw [Arena.rewritten_of_empty (hret.bare hout).2]
    exact ⟨ret, hret⟩
  · exact ⟨ret, hret.charge hout (m.arena.charges_rewritten struct change)⟩

theorem isDraft_rework (d : Deed) {m : Message} (hm : m.IsDraft) : (d.rework m).IsDraft := by
  cases d with
  | allocate size => exact isDraft_allocateResults hm size
  | boot cap => exact isDraft_setBootstrap hm cap
  | edit struct change => exact isDraft_rewritten hm struct change
  | _ => exact hm

/-! ## Returns that go out -/

/-- The limit of the message is too low for empty results. -/
def Tight (m : Message) : Prop := ∃ limit, m.arena.wordLimit = some limit ∧ limit < leastWords

/-- The message is a return that holds results or an exception, unless its limit is too low for empty
    results, and nothing then. -/
def HasOutcome (m : Message) : Prop := ∃ ret, m.root = some (.return ret) ∧ (ret.outcome = .unset ↔ m.Tight)

/-- What is charged fits, so a limit that is too low was never reached. -/
theorem not_tight_of_paid {m : Message} (hpaid : leastWords ≤ m.arena.wordsUsed) (hfits : m.arena.Fits) :
    ¬ m.Tight := by
  rintro ⟨limit, hlimit, hlow⟩
  exact absurd hlow (Nat.not_lt_of_le (Nat.le_trans hpaid (hfits limit hlimit)))

theorem Drafted.hasOutcome {m : Message} {ret : Return} (hm : m.Drafted ret)
    (hopen : ret.outcome = .unset → m.Tight) : m.HasOutcome := by
  refine ⟨ret, hm.root, hopen, fun htight => Classical.byContradiction fun hout => ?_⟩
  exact not_tight_of_paid (hm.paid hout) hm.fits htight

/-- Where empty results find no room the limit is too low for them, and the return holds nothing. -/
theorem Drafted.hasOutcome_ensureResults {m : Message} {ret : Return} (hm : m.Drafted ret) :
    m.ensureResults.1.HasOutcome := by
  unfold ensureResults
  cases hresults : m.getResults with
  | ok payload =>
      refine hm.hasOutcome fun hout => ?_
      simp [getResults, hm.getReturn, hout] at hresults
  | error e =>
      dsimp only
      cases hinit : m.initResults with
      | ok m₁ => exact (hm.initResults hinit).hasOutcome fun hout => absurd hout (by simp)
      | error x =>
          refine hm.hasOutcome fun hout => ?_
          rw [initResults_of_root hm.root] at hinit
          have hfull := eq_error_of_map_eq_error hinit
          obtain ⟨limit, hlimit, hlow, -⟩ := (m.arena.allocate_eq_error_iff _ _).1 hfull
          rw [(hm.bare hout).1] at hlow
          exact ⟨limit, hlimit, hlow⟩

/-- Whether a return holds something is a matter of its root, and the limit stays. -/
theorem HasOutcome.charge {m : Message} (hm : m.HasOutcome) {a : Arena}
    (h : a.wordLimit = m.arena.wordLimit) : ({ m with arena := a } : Message).HasOutcome := by
  obtain ⟨ret, hroot, hout⟩ := hm
  refine ⟨ret, hroot, ?_⟩
  unfold Tight
  rw [h]
  exact hout

theorem HasOutcome.modifyResults {m m' : Message} (hm : m.HasOutcome) {f : Payload → Payload}
    (h : m.modifyResults f = .ok m') : m'.HasOutcome := by
  obtain ⟨ret, payload, hroot, hres, rfl⟩ := modifyResults_eq_ok_iff.1 h
  obtain ⟨ret', hroot', hout⟩ := hm
  obtain rfl := Root.return.inj (Option.some.inj (hroot.symm.trans hroot'))
  exact ⟨_, rfl, (iff_of_false (by simp) (by simp [hres])).trans hout⟩

theorem HasOutcome.initCapTable {m : Message} (hm : m.HasOutcome) (len : UInt32) :
    (m.initCapTable len).value.2.HasOutcome := by
  unfold Message.initCapTable
  dsimp only
  split
  · exact hm
  · next a ha =>
      have hcharged : ({ m with arena := a } : Message).HasOutcome :=
        hm.charge (Arena.grows_of_charge ha).limit
      split
      · exact hcharged
      · next filled hfill => exact hcharged.modifyResults hfill

theorem HasOutcome.writeDescriptors {m : Message} (hm : m.HasOutcome) (x : Exports) :
    (x.writeDescriptors m).value.2.1.HasOutcome := by
  rw [Exports.value_writeDescriptors]
  have htable := hm.initCapTable m.arena.caps.length.toUInt32
  split
  · next heq => rw [heq] at htable; exact htable
  · next heq =>
      rw [heq] at htable
      dsimp only
      split
      · exact htable
      · next filled hfill => exact htable.modifyResults hfill

theorem IsDraft.hasOutcome_completed {m : Message} (hm : m.IsDraft) : (m.completed false).HasOutcome := by
  obtain ⟨ret, hret⟩ := hm
  have hwritten := hret.hasOutcome_ensureResults.writeDescriptors {}
  unfold completed Exports.writeResults
  simp only [Bool.false_eq_true, if_false]
  split <;> next heq => rw [heq] at hwritten; exact hwritten

/-- An exception takes more words than empty results. -/
theorem IsDraft.hasOutcome_writeException {m : Message} (hm : m.IsDraft) {e : Error}
    (h : (m.writeException e).1 = .ok ()) : (m.writeException e).2.HasOutcome := by
  obtain ⟨ret, hret⟩ := hm
  have hroom := (writeException_eq_ok_iff hret.root e).1 h
  have hlimit := (builds_rule.writeException m e).arena.limit
  refine ⟨_, root_of_writeException hret.root h, iff_of_false (by simp) ?_⟩
  rintro ⟨limit, hsome, hlow⟩
  have hfits := hroom limit (hlimit ▸ hsome)
  have hbare := hret.bareWords_le
  have hmore : payloadWords.toNat ≤ exceptionWords.toNat := by decide
  unfold leastWords at hlow
  omega

theorem hasOutcome_unnumbered (m : Message) : m.unnumbered.HasOutcome ↔ m.HasOutcome := by
  obtain ⟨arena, root⟩ := m
  rcases root with _ | ⟨id, release, outcome⟩ | exc
  · rfl
  · cases outcome <;> simp [HasOutcome, Tight, unnumbered, Root.unnumbered, Outcome.unnumbered]
  · simp [HasOutcome, unnumbered, Root.unnumbered]

/-- What goes out of a return under construction holds what its call completes with. -/
theorem IsDraft.hasOutcome_sealed? {m s : Message} (hm : m.IsDraft) {down : Bool} {result : Except Error Unit}
    (h : m.sealed? down result = some s) : s.HasOutcome := by
  cases result with
  | ok u =>
      simp only [sealed?] at h
      split at h
      · exact absurd h (by simp)
      · obtain rfl := Option.some.inj h
        exact (hasOutcome_unnumbered _).2 hm.hasOutcome_completed
  | error e =>
      have hwritten := hm.hasOutcome_writeException (e := e)
      simp only [sealed?] at h
      split at h
      · next written heq =>
          rw [heq] at hwritten
          split at h
          · exact absurd h (by simp)
          · obtain rfl := Option.some.inj h
            exact (hasOutcome_unnumbered _).2 (hwritten rfl)
      · exact absurd h (by simp)

end Message

namespace Connection

open Books

/-- On every connection that can come about the return of a running call is under construction, whatever was
    built in it. -/
theorem Reachable.isDraft {c : Connection} (hc : Reachable c) :
    ∀ h m, c.draft? h = some m → m.IsDraft :=
  hc.draft_induction (fun _ _ _ hstart => Message.isDraft_startReturn hstart)
    fun d _ hm => Message.isDraft_rework d hm

/-- The return that a call completes with has an outcome. -/
theorem hasOutcome_of_returned? {c : Connection} (hc : Reachable c) {h : Handle} {p : Holder}
    (hold : c.books.Holds p h .building) {result : Except Error Unit} {m : Message}
    (hreturned : c.returned? h.id result = some m) : m.HasOutcome := by
  obtain ⟨caller, draft, hview⟩ := exists_running hc hold
  have hsealed := returned?_of_view? hview result
  rw [hreturned] at hsealed
  obtain ⟨d, rfl, hd⟩ := Option.bind_eq_some_iff.1 hsealed.symm
  have hdraft : d.IsDraft := hc.isDraft h d ((c.draft?_eq_some_iff h d).2 ⟨caller, hview⟩)
  exact (Message.hasOutcome_unnumbered m).1 (hdraft.hasOutcome_sealed? hd)

/-! ## Returns on their way -/

/-- The moves of the store take no message back and give none another limit. -/
theorem grows_storeRule : StoreRule Message.Builds MessageStore.Grows where
  toSealingRule := Message.builds_rule
  starts := Message.builds_startReturn
  aborts := Message.builds_writeAbort
  stays := .refl
  chains h h' := h.trans h'
  creates := MessageStore.grows_create
  puts := MessageStore.grows_put
  edits := MessageStore.grows_edit

/-- No message is taken back or given another limit. -/
theorem grows_rule : FullRule fun c c' => c.messages.Grows c'.messages := grows_storeRule.full

/-- The message is there and has an outcome. -/
def Carries (c : Connection) (e : Envelope) : Prop :=
  e.arena < c.messages.next ∧ (c.messages.message e).HasOutcome

theorem Carries.grow {c c' : Connection} {e : Envelope} (hc : c.Carries e)
    (h : c.messages.Grows c'.messages) : c'.Carries e :=
  ⟨Nat.lt_of_lt_of_le hc.1 h.next, hc.2.charge (h.arena e.arena hc.1).limit⟩

/-- What a completion has on its way once it has begun has an outcome, if what it had there before has. -/
theorem carries_of_onItsWay {c : Connection} (hc : Reachable c) {t : TaskId} {h : Handle}
    {stage : ReturnStage} {guard : Option Token} {call : CallId} {send : SendStage}
    (hget : c.tasks.get? t = some ⟨.sendReturn h stage, guard⟩)
    (hbefore : ∀ f, stage = .sending send f → c.Carries send.envelope)
    (hway : c.onItsWay (.sendReturn h stage) = some (call, send)) :
    (c.begun (.sendReturn h stage)).Carries send.envelope := by
  cases stage with
  | draining w => exact absurd hway (by simp [onItsWay])
  | sending send' f =>
      obtain ⟨-, rfl⟩ := Prod.mk.inj (Option.some.inj hway)
      exact hbefore f rfl
  | unbegun result =>
      have hold : c.books.Holds (.task t) h .building := taskOwes_of_get? (b := c.books) hget
      obtain ⟨e, hbegun, heq⟩ := Option.map_eq_some_iff.1 hway
      obtain ⟨-, rfl⟩ := Prod.mk.inj heq
      have hout : ((c.beginReturn h.id result).2.messages.message e).HasOutcome :=
        hasOutcome_of_returned? hc hold (congrArg (Option.map _) hbegun)
      obtain ⟨a, d, m, ha, hmsg, rfl, -⟩ := sealed_of_beginReturn hbegun
      have hlt : d.arena < c.messages.next := (hc.stored.opened ha hmsg).1
      exact ⟨Nat.lt_of_lt_of_le hlt (grows_rule.begins c h.id result).next, hout⟩

/-- What a completion leaves on its way it had there when it had begun. -/
theorem onItsWay_of_pollReturn {c : Connection} {t : TaskId} {h : Handle} {stage : ReturnStage}
    {left : SendStage} {f : Bool} (hleft : (c.pollReturn t h stage).1 = some (.sending left f)) :
    ∃ send, c.onItsWay (.sendReturn h stage) = some (h.call, send) ∧ left.envelope = send.envelope := by
  cases stage with
  | draining w =>
      obtain ⟨w', heq⟩ := draining_of_awaitDeliveries hleft
      exact absurd heq (by simp)
  | sending send f' => exact ⟨send, rfl, envelope_of_awaitReturn hleft⟩
  | unbegun result =>
      unfold pollReturn at hleft
      dsimp only at hleft
      split at hleft
      · exact absurd hleft (by simp)
      · next e f' c' heq => exact ⟨.waiting e, by simp [onItsWay, heq], envelope_of_awaitReturn hleft⟩
      · obtain ⟨w', heq⟩ := draining_of_awaitDeliveries hleft
        exact absurd heq (by simp)

/-- On every connection that can come about what completions have on their way has an outcome. -/
theorem Reachable.carries {c : Connection} (hc : Reachable c) : ∀ t h send f guard,
    c.tasks.get? t = some ⟨.sendReturn h (.sending send f), guard⟩ → c.Carries send.envelope := by
  induction hc with
  | initial options => exact fun t h send f guard hget => absurd hget (by simp [Connection.initial])
  | @step c action hprev ih =>
      intro t h send f guard hget
      cases c.taskStep action hget with
      | kept before idle =>
          -- it may still be written to, which leaves its root and its limit
          exact (ih t h send f guard before).grow (grows_rule.step c action)
      | spawned number fresh => exact fresh.elim
      | @ran before work isPoll found live left task =>
          subst isPoll
          obtain rfl := (Task.mk.inj task).1
          obtain ⟨work, guard'⟩ := before
          obtain ⟨stage, rfl, hleft⟩ := left_of_run left
          obtain ⟨send', hway, hsame⟩ := onItsWay_of_pollReturn hleft
          have hbegun := carries_of_onItsWay hprev found
            (fun f' hstage => ih t h send' f' guard' (hstage ▸ found)) hway
          obtain ⟨-, ts, heq⟩ := step_poll_of_live found live
          rw [heq, hsame]
          exact hbegun.grow (grows_rule.toRunRule.run c t (.sendReturn h stage))

/-! ## Returns that went out -/

/-- Every return that was handed to the transport has an outcome: it holds results or an exception, whatever
    was built before, unless its limit is too low for empty results. -/
theorem Reachable.sendsOutcomes {c : Connection} (hc : Reachable c) :
    ∀ call m, (call, m) ∈ c.handedReturns → m.HasOutcome := by
  induction hc with
  | initial options => exact fun call m hin => absurd hin (by simp [handedReturns, Connection.initial])
  | @step c action hprev ih =>
      intro call m hin
      rw [handedReturns_step] at hin
      rcases List.mem_append.1 hin with hnow | hbefore
      · obtain ⟨t, ⟨work, guard⟩, e, rfl, hget, -, hway, -, rfl⟩ := (c.mem_handsOver_iff _ _ _).1 hnow
        obtain ⟨h, s, howes, rfl⟩ := owes_of_onItsWay hway
        obtain ⟨stage, rfl, -⟩ := stage_of_owes howes
        exact (carries_of_onItsWay hprev hget
          (fun f hstage => hprev.carries t h _ f guard (hstage ▸ hget)) hway).2
      · exact ih call m hbefore

/-- A run in which the limit is raised from too little for empty results to just enough between two calls. -/
def raisingRun : List Action :=
  [.configure (.wordLimit (some 6)), .newAnswer 1 "first", .configure (.wordLimit (some 7)),
    .newAnswer 2 "second", .sendReturn ⟨1, 0⟩ (.ok ()) none, .sendReturn ⟨2, 1⟩ (.ok ()) none, .poll 0,
    .poll 1]

theorem sendsOutcomes_after_raising :
    ((initial {}).after raisingRun).handedReturns.length = 2 ∧
      ∀ call m, (call, m) ∈ ((initial {}).after raisingRun).handedReturns → m.HasOutcome :=
  ⟨by decide +kernel, ((Reachable.initial {}).after raisingRun).sendsOutcomes⟩

/-- A return goes out that holds neither results nor an exception. -/
theorem unset_after_raising : ∃ m ret, (0, m) ∈ ((initial {}).after raisingRun).handedReturns ∧
    m.root = some (.return ret) ∧ ret.outcome = .unset :=
  ⟨{ arena := { wordsUsed := 6, wordLimit := some 6 },
      root := some (.return { answerId := 1, releaseParamCaps := false }) }, _, by decide +kernel, rfl, rfl⟩

end Connection

end Callee
