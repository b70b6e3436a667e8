import Callee.Proofs.Causes
import Callee.Proofs.Forwarding
import Callee.Proofs.Rooting
import Callee.Proofs.Stranding

set_option autoImplicit false

/-! # Where pointers lead on a connection

Whatever is done to the messages of a connection, every pointer in them leads to a struct that exists or to a
slot that is filled, and to each of those leads one place at most (`WellPointed`). A path through results
starts at a root and goes on from field to field, so it never comes to something missing
(`Arena.resolve_error`): what a pipelined call fails with is that its path does not end at a capability, or the
error that the call before completed with. And since every slot is filled, every slot is described
(`Reachable.handsDescribed`). -/

namespace Callee

/-- A path went on into a struct or ended at a slot that is not there. -/
def Error.isDangling : Error → Bool
  | .missingStruct _ => true
  | .emptySlot _ => true
  | _ => false

/-! ## Paths -/

namespace Arena

/-- A pointer is null, or it leads to a struct that exists or to a slot that is filled. -/
def Leads (a : Arena) : Pointer → Prop
  | .null => True
  | .struct index => index < a.structs.length
  | .capability index => ∃ cap, a.capability? index = some cap

theorem Filled.exists_capability {a : Arena} (ha : a.Filled) {i : Nat} (hi : i < a.caps.length) :
    ∃ cap, a.capability? i = some cap := by
  obtain ⟨caps, hcaps⟩ := ha
  have hlt : i < caps.length := by simpa [hcaps] using hi
  exact ⟨caps[i], by simp [capability?, hcaps, List.getElem?_eq_getElem hlt]⟩

theorem Filled.leads {a : Arena} (ha : a.Filled) {p : Pointer} (hp : a.Has p) : a.Leads p := by
  cases p with
  | null => trivial
  | struct index => exact hp
  | capability index => exact ha.exists_capability hp

theorem Tree.has_field {a : Arena} (ha : a.Tree) (s : Nat) (index : UInt16) : a.Has (a.field s index) := by
  unfold field
  split
  · next body hbody =>
      rw [List.getD_eq_getElem?_getD]
      cases hfield : body.pointers[index.toNat]? with
      | none => exact trivial
      | some p => exact ha.has (Option.bind_eq_some_iff.2 ⟨body, hbody, hfield⟩)
  · exact trivial

/-- A path from something that is there leads to something that is there, unless it would go on through a
    capability. -/
theorem Tree.walk {a : Arena} (ha : a.Tree) (path : List PathStep) {p : Pointer} (hp : a.Has p) :
    (∃ q, a.walk p path = .ok q ∧ a.Has q) ∨ a.walk p path = .error .throughCapability := by
  induction path generalizing p with
  | nil => exact Or.inl ⟨p, rfl, hp⟩
  | cons step rest ih =>
      cases step with
      | stay => exact ih hp
      | field index =>
          cases p with
          | null => exact ih trivial
          | capability i => exact Or.inr rfl
          | struct s =>
              have hlt : s < a.structs.length := hp
              simp only [Arena.walk, follow, if_pos hlt]
              exact ih (ha.has_field s index)

/-- So it fails only because of what it leads to. -/
theorem resolve_error {a : Arena} (ha : a.Tree) (hfilled : a.Filled) {p : Pointer} (hp : a.Has p)
    {path : List PathStep} {e : Error} (h : a.resolve p path = .error e) :
    e = .throughCapability ∨ e = .nullTarget ∨ e = .structTarget := by
  unfold resolve at h
  rcases ha.walk path hp with ⟨q, hwalk, hq⟩ | hwalk
  · rw [hwalk] at h
    cases q with
    | null => exact Or.inr (Or.inl (Except.error.inj h).symm)
    | struct s => exact Or.inr (Or.inr (Except.error.inj h).symm)
    | capability i =>
        obtain ⟨cap, hcap⟩ := hfilled.exists_capability hq
        exact absurd h (by simp [target, hcap])
  · rw [hwalk] at h
    exact Or.inl (Except.error.inj h).symm

end Arena

/-! ## Descriptors -/

/-- Beside the results in a root, if there are any, no descriptor is empty. -/
def AllDescribed (root : Option Root) : Prop :=
  ∀ ret payload, root = some (.return ret) → ret.outcome = .results payload → none ∉ payload.capTable

theorem Tableless.allDescribed {root : Option Root} (h : Tableless root) : AllDescribed root := by
  obtain ⟨ret, hroot, hplain⟩ := h
  intro ret' payload hroot' hout
  obtain rfl := Root.return.inj (Option.some.inj (hroot.symm.trans hroot'))
  simp [hplain payload hout]

theorem AllDescribed.of_getResults {m : Message} (h : AllDescribed m.root) {payload : Payload}
    (hresults : m.getResults = .ok payload) : none ∉ payload.capTable := by
  obtain ⟨ret, hroot, hout⟩ := Message.getResults_eq_ok_iff.1 hresults
  exact h ret payload hroot hout

theorem Message.tableless_ensureResults {m : Message} (hm : Tableless m.root) :
    Tableless m.ensureResults.1.root := by
  have hkept := hm
  obtain ⟨ret, hroot, -⟩ := hm
  unfold ensureResults
  split
  · exact hkept
  · rw [initResults_of_root hroot]
    cases m.arena.allocate payloadWords with
    | error e => exact hkept
    | ok a =>
        refine ⟨_, rfl, fun payload hout => ?_⟩
        obtain rfl := Outcome.results.inj hout
        rfl

namespace Exports

theorem none_not_mem_describe (x : Exports) {a : Arena} (ha : a.Filled) : none ∉ (x.describe a.caps).value.1 := by
  obtain ⟨caps, hcaps⟩ := ha
  intro hin
  have hslots := List.mem_map_of_mem (f := Option.map fun _ => (0 : ExportId)) hin
  rw [unnumbered_describe, hcaps] at hslots
  simp at hslots

/-- Once the descriptors of a message whose slots are filled are written, there is one for each slot, and none
    is empty. -/
theorem described_of_writeDescriptors {x x' : Exports} {m m' : Message} {ids : List ExportId}
    (hm : m.arena.Filled) (h : (x.writeDescriptors m).value = (.ok ids, m', x')) : ∃ payload,
      m'.getResults = .ok payload ∧ payload.capTable.length = m'.arena.caps.length ∧
        none ∉ payload.capTable := by
  rcases x.writeDescriptors_cases m with ⟨e, -, heq⟩ | ⟨ret, payload, words, -, -, heq⟩
  · rw [heq] at h
    exact absurd (congrArg Prod.fst h) (by simp)
  · rw [heq] at h
    obtain rfl := congrArg (fun r => r.2.1) h
    have hlength := congrArg List.length (x.unnumbered_describe m.arena.caps)
    refine ⟨_, rfl, ?_, x.none_not_mem_describe hm⟩
    simpa using hlength

/-- What is written out of a return under construction has no empty descriptor. -/
theorem allDescribed_writeResults (x : Exports) {m : Message} (hm : m.arena.Filled) (htable : Tableless m.root)
    (down : Bool) : AllDescribed (x.writeResults m down).message.root := by
  have hensured := Message.tableless_ensureResults htable
  have hfilled := (Message.worked_rule.ensureResults m).arena.filled hm
  unfold writeResults
  dsimp only
  split
  · exact hensured.allDescribed
  · split
    · next ids m' x' heq =>
        obtain ⟨payload, hresults, -, hnone⟩ := described_of_writeDescriptors hfilled heq
        obtain ⟨ret, hroot, hout⟩ := Message.getResults_eq_ok_iff.1 hresults
        intro ret' payload' hroot' hout'
        obtain rfl := Root.return.inj (Option.some.inj (hroot.symm.trans hroot'))
        obtain rfl := Outcome.results.inj (hout.symm.trans hout')
        exact hnone
    · next e m' x' heq =>
        -- there was no room for descriptors, and the results are as they were
        rcases x.writeDescriptors_cases m.ensureResults.1 with
          ⟨e', herr, heq'⟩ | ⟨ret, payload, words, -, -, heq'⟩
        · rw [heq'] at heq
          obtain rfl := congrArg (fun r => r.2.1) heq
          obtain ⟨hroot, -⟩ := Message.initCapTable_failed (Prod.ext herr rfl)
          exact (hroot ▸ hensured).allDescribed
        · rw [heq'] at heq
          exact absurd (congrArg Prod.fst heq) (by simp)

end Exports

namespace Connection

/-- No return that was handed to the transport has an empty descriptor. -/
theorem Reachable.handsDescribed {c : Connection} (hc : Reachable c) {call : CallId} {m : Message}
    (h : (call, m) ∈ c.handedReturns) : AllDescribed m.root := by
  refine (hc.departure_induction (P := AllDescribed) (fun exc ret payload hroot => absurd hroot (by simp))
    (fun {c action d result m} hc hdeparts => ?_)).2 call m h
  obtain ⟨k, a, ha, hmsg, -⟩ := hdeparts.held
  have hopen : a.state.resultsReady = false := ((hc.reckoning.answers k.id a ha).unbegun d hmsg).2.2.2
  have htable := tableless_of_draft? hc (draft?_of_record (h := ⟨k.id, a.call⟩) ha rfl hopen hmsg)
  cases hdeparts.seals with
  | results => exact c.exports.allDescribed_writeResults (hc.reckoning.filled d.arena) htable false
  | exception x => exact (Message.tableless_writeException htable x).allDescribed

/-! ## Places -/

/-- A place of an arena that holds a pointer. -/
inductive Place where
  /-- The content of the results. -/
  | content
  /-- A field of a struct. -/
  | field (struct index : Nat)
  deriving DecidableEq

/-- The results of a call: those in its return under construction, or what it completed with. -/
inductive Shows (c : Connection) (x : ResultsRef) : Prop
  | building {id : AnswerId} {a : Answer} {e : Envelope} (found : c.answers.get? id = some a)
      (holds : a.message = some e) (results : e.results? = some x)
  | published (published : c.Published x)

/-- A place of an arena holds a pointer. The content stands in the message and is copied by the record that
    reads it, and is one place all the same. -/
inductive Points (c : Connection) (r : ArenaId) : Place → Pointer → Prop
  | content {p : Pointer} (shows : c.Shows ⟨r, p⟩) : Points c r .content p
  | field {s i : Nat} {p : Pointer} (holds : (c.messages.arena r).pointer? s i = some p) :
      Points c r (.field s i) p

/-- The content of results is a root. -/
theorem Shows.loose {c : Connection} (hc : Reachable c) {x : ResultsRef} (h : c.Shows x) :
    (c.messages.arena x.arena).Loose x.content := by
  cases h with
  | published h => exact (hc.atRest h).loose
  | building found holds results =>
      rw [Envelope.results?_eq] at results
      obtain ⟨p, hp, rfl⟩ := Option.map_eq_some_iff.1 results
      exact hc.rooted found holds p hp

/-- Where results are at rest no others are shown. -/
theorem AtRest.shows {c : Connection} {x y : ResultsRef} (hx : c.AtRest x) (hy : c.Shows y)
    (h : y.arena = x.arena) : y = x := by
  cases hy with
  | published hy => exact hx.one hy h
  | building found holds results =>
      exact absurd ((Envelope.arena_of_results? results).symm.trans h) (hx.isSealed.parted found holds)

/-- All that shows the results in an arena shows the same. -/
theorem Shows.unique {c : Connection} (hc : Reachable c) {x y : ResultsRef} (hx : c.Shows x) (hy : c.Shows y)
    (h : y.arena = x.arena) : y = x := by
  cases hx with
  | published hx => exact (hc.atRest hx).shows hy h
  | building found holds results =>
      cases hy with
      | published hy => exact ((hc.atRest hy).shows (.building found holds results) h.symm).symm
      | building found' holds' results' =>
          -- no two records build returns in one arena
          have harena := Envelope.arena_of_results? results
          have harena' := Envelope.arena_of_results? results'
          obtain rfl := hc.stored.apart found found' holds holds' (harena'.symm.trans (h.trans harena))
          obtain rfl := Option.some.inj (found.symm.trans found')
          obtain rfl := Option.some.inj (holds.symm.trans holds')
          exact Option.some.inj (results'.symm.trans results)

namespace Points

variable {c : Connection} {r : ArenaId} {place place' : Place} {p q : Pointer}

theorem leads (hc : Reachable c) (h : c.Points r place p) : (c.messages.arena r).Leads p := by
  refine (hc.reckoning.filled r).leads ?_
  cases h with
  | content shows => exact (shows.loose hc).has
  | field holds => exact (hc.trees r).has holds

/-- To a struct or a slot leads one place. -/
theorem once (hc : Reachable c) (h : c.Points r place p) (h' : c.Points r place' p) (hne : p ≠ .null) :
    place' = place := by
  cases h with
  | content shows =>
      cases h' with
      | content shows' => rfl
      | field holds' => exact absurd holds' ((shows.loose hc).unheld hne _ _)
  | field holds =>
      cases h' with
      | content shows' => exact absurd holds ((shows'.loose hc).unheld hne _ _)
      | field holds' =>
          obtain ⟨rfl, rfl⟩ := (hc.trees r).once holds holds' hne
          rfl

/-- In a place stands one pointer. -/
theorem unique (hc : Reachable c) (h : c.Points r place p) (h' : c.Points r place q) : q = p := by
  cases h with
  | content shows =>
      cases h' with
      | content shows' => exact (ResultsRef.mk.inj (shows.unique hc shows' rfl)).2
  | field holds =>
      cases h' with
      | field holds' => exact Option.some.inj (holds'.symm.trans holds)

end Points

/-! ## Pipelined calls -/

/-- A call has completed with an error. -/
def CompletedWith (c : Connection) (id : AnswerId) (e : Error) : Prop :=
  ∃ a, c.answers.get? id = some a ∧ a.error = some e

/-- A path through results does not meet anything missing. -/
theorem Reachable.resolve_error {c : Connection} (hc : Reachable c) {x : ResultsRef}
    (hx : (c.messages.arena x.arena).Has x.content) {path : List PathStep} {e : Error}
    (h : c.messages.resolve x path = .error e) : e.isDangling = false := by
  rcases Arena.resolve_error (hc.trees x.arena) (hc.reckoning.filled x.arena) hx h with rfl | rfl | rfl <;> rfl

/-- Nothing that is missing is met on the way of a pipelined call. -/
theorem Reachable.route_error {c : Connection} (hc : Reachable c) {id : AnswerId} {path : List PathStep}
    {e : Error} (h : c.route id path = .error e) (hdangling : e.isDangling = true) : c.CompletedWith id e := by
  unfold route at h
  split at h
  · obtain rfl := Except.error.inj h
    exact absurd hdangling (by simp [Error.isDangling])
  · next a ha =>
      split at h
      · exact absurd h (by simp)
      · split at h
        · split at h
          · next x herror =>
              obtain rfl := Except.error.inj h
              exact ⟨a, ha, herror⟩
          · split at h
            · next r hresults =>
                have hhas := (hc.atRest (.kept ha hresults)).loose.has
                cases hresolve : c.messages.resolve r path with
                | ok cap => exact absurd h (by simp [hresolve, Except.map])
                | error x =>
                    rw [hresolve] at h
                    obtain rfl := Except.error.inj h
                    exact absurd hdangling (by simp [hc.resolve_error hhas hresolve])
            · obtain rfl := Except.error.inj h
              exact absurd hdangling (by simp [Error.isDangling])
        · obtain rfl := Except.error.inj h
          exact absurd hdangling (by simp [Error.isDangling])

theorem error_forwardWithin {depth : Nat} {c : Connection} {id : AnswerId} {call : PipelinedCall} {e : Error}
    (h : (forwardWithin depth c id call).1 = .error e) : c.route id call.path = .error e := by
  unfold forwardWithin at h
  split at h
  · next x hroute =>
      obtain rfl := Except.error.inj h
      exact hroute
  · exact absurd h (by simp)
  · dsimp only at h
    split at h <;> exact absurd h (by simp)

/-- What is noted of a call that receivers forward is where it had to go. -/
theorem nested_forwardWithin {b : Books} {depth : Nat} {c : Connection} (hb : c.books = b) {id : AnswerId}
    {call : PipelinedCall} {e : Error} (h : .nested (.error e) ∈ (forwardWithin depth c id call).2.history) :
    .nested (.error e) ∈ c.history ∨
      ∃ d : Connection, d.books = b ∧ ∃ j path, d.route j path = .error e := by
  induction depth generalizing c id call with
  | zero =>
      left
      cases c.goes id call 0 with
      | nowhere route failed forward made => rwa [forward] at h
      | held route mode forward made | acknowledged route mode forward made =>
          rw [forward] at h
          exact (List.mem_cons.1 h).resolve_left (by simp)
  | succ depth ih =>
      cases c.goes id call (depth + 1) with
      | nowhere route failed forward made => exact Or.inl (by rwa [forward] at h)
      | held route mode forward made | acknowledged route mode forward made =>
          rw [forward] at h
          exact Or.inl ((List.mem_cons.1 h).resolve_left (by simp))
      | @onward _ name owner target less result d route mode lowered nested forward made =>
          have hbooks : (c.deliver name owner call).books = b := (c.books_deliver name owner call).trans hb
          rw [forward] at h
          rcases List.mem_cons.1 h with hnow | hbefore
          · -- this is what came of the call when it was forwarded
            obtain rfl := Event.nested.inj hnow
            exact Or.inr ⟨_, hbooks, target, less.path, error_forwardWithin (congrArg Prod.fst nested)⟩
          · rcases ih hbooks (by rw [nested]; exact hbefore) with hold | hroute
            · exact Or.inl ((List.mem_cons.1 hold).resolve_left (by simp))
            · exact Or.inr hroute

/-! ## All pointers of a connection -/

/-- Whoever keeps results that a call completed with reads the content of the message. -/
structure Readable (c : Connection) (x : ResultsRef) : Prop where
  leads : (c.messages.arena x.arena).Leads x.content
  /-- No field leads to what they point to. -/
  once : ∀ {place}, c.Points x.arena place x.content → x.content ≠ .null → place = .content
  /-- All that holds the content of the arena holds the same as they. -/
  agrees : ∀ {p}, c.Points x.arena .content p → p = x.content
  /-- No path through them meets a struct or a slot that is not there. -/
  resolves : ∀ {path e}, c.messages.resolve x path = .error e → e.isDangling = false

theorem AtRest.readable {c : Connection} (hc : Reachable c) {x : ResultsRef} (h : c.AtRest x) :
    c.Readable x where
  leads := (hc.reckoning.filled x.arena).leads h.loose.has
  once hpoints hne := by
    cases hpoints with
    | content shows => rfl
    | field holds => exact absurd holds (h.loose.unheld hne _ _)
  agrees hpoints := by
    cases hpoints with
    | content shows => exact (ResultsRef.mk.inj (h.shows shows rfl)).2
  resolves herror := hc.resolve_error h.loose.has herror

/-- Every pointer of a connection leads somewhere, and from one place only. -/
structure WellPointed (c : Connection) : Prop where
  /-- The content of results and every field lead to a struct that exists or to a slot that is filled. -/
  leads : ∀ {r place p}, c.Points r place p → (c.messages.arena r).Leads p
  /-- A struct that a field leads to stands behind the struct of the field. -/
  deeper : ∀ {r s i t}, c.Points r (.field s i) (.struct t) → s < t
  /-- To a struct or a slot leads one place. -/
  once : ∀ {r place place' p}, c.Points r place p → c.Points r place' p → p ≠ .null → place' = place
  /-- All that holds the content of an arena holds the same. -/
  agrees : ∀ {r place p q}, c.Points r place p → c.Points r place q → q = p
  /-- What a call has completed with is read in the same way ever after, also when the answer is gone. -/
  readers : ∀ {x}, c.Published x → ∀ actions, (c.after actions).Readable x
  /-- A pipelined call does not meet a struct or a slot that is not there either: such an error is the one that
      the call before completed with. -/
  forwards : ∀ {id call e}, (c.forward id call).1 = .error e → e.isDangling = true → c.CompletedWith id e
  /-- The same goes for the calls that receivers forward. -/
  nested : ∀ {id call e}, .nested (.error e) ∈ (c.forward id call).2.history → e.isDangling = true →
    .nested (.error e) ∈ c.history ∨ ∃ j, c.CompletedWith j e
  /-- And no call completes with such an error unless its executor gives it. -/
  given : ∀ {options actions id e}, c = (initial options).after actions → c.CompletedWith id e →
    e.isDangling = true → ∃ k guard, .sendReturn k (.error e) guard ∈ actions
  /-- If the descriptors of a return can be written, there is one for each slot, and none is empty. -/
  describes : ∀ {id a e ids m x}, c.answers.get? id = some a → a.message = some e →
    (c.exports.writeDescriptors (c.messages.message e).ensureResults.1).value = (.ok ids, m, x) →
      ∃ payload, m.getResults = .ok payload ∧ payload.capTable.length = m.arena.caps.length ∧
        none ∉ payload.capTable
  /-- No return that was ever handed to the transport has an empty descriptor. -/
  handed : ∀ {call m payload}, (call, m) ∈ c.handedReturns → m.getResults = .ok payload →
    none ∉ payload.capTable

/-- Whatever the executors do through their handles, to returns and to structs, and whatever fails. -/
theorem Reachable.wellPointed {c : Connection} (hc : Reachable c) : c.WellPointed where
  leads h := h.leads hc
  deeper h := by
    cases h with
    | field holds => exact (hc.trees _).deeper holds
  once h h' hne := h.once hc h' hne
  agrees h h' := h.unique hc h'
  readers h actions := ((hc.atRest h).after hc actions).readable (hc.after actions)
  forwards h hdangling := hc.route_error (error_forwardWithin h) hdangling
  nested h hdangling := by
    rcases nested_forwardWithin rfl h with hold | ⟨d, hbooks, j, path, hroute⟩
    · exact Or.inl hold
    · exact Or.inr ⟨j, hc.route_error ((route_of_books hbooks j path).symm.trans hroute) hdangling⟩
  given := by
    rintro options actions id e rfl ⟨a, ha, herror⟩ hdangling
    rcases (caused_after options actions).noted ha herror with rfl | hgiven
    · exact absurd hdangling (by simp [Error.isDangling])
    · exact hgiven
  describes {id a e ids m x} _ _ hwritten := by
    have hfilled := (Message.worked_rule.ensureResults (c.messages.message e)).arena.filled
      (hc.reckoning.filled e.arena)
    exact Exports.described_of_writeDescriptors hfilled hwritten
  handed hin hresults := (hc.handsDescribed hin).of_getResults hresults

/-- A run in which the results of a call are replaced by a struct with another one and a capability in its
    fields. The limit leaves no room for a third one. When the results are out a field is written once more, and
    a call is forwarded to them. -/
def branchingRun : List Action :=
  [.configure (.wordLimit (some 24)), .newAnswer 1 "first", .configure (.wordLimit none), .newAnswer 2 "second",
    .setBootstrap ⟨1, 0⟩ ⟨"door", 5⟩, .allocateResults ⟨1, 0⟩ ⟨0, 2⟩, .edit ⟨0, 0⟩ (.initStruct 0 ⟨1, 1⟩),
    .edit ⟨0, 1⟩ (.setCapability 0 ⟨"bell", 6⟩), .edit ⟨0, 0⟩ (.initStruct 1 ⟨40, 0⟩),
    .edit ⟨0, 0⟩ (.setCapability 1 ⟨"lamp", 7⟩), .sendReturn ⟨1, 0⟩ (.ok ()) none, .poll 0,
    .edit ⟨0, 1⟩ (.setCapability 0 ⟨"late", 8⟩), .newCaller "relay" (.forward 1), .setPipeline 2 "relay",
    .forward 2 ⟨7, 0, 0, [.field 0]⟩]

/-- What is written late is reached by a pipelined call, but is not described. -/
theorem wellPointed_after_branching :
    let c := (initial {}).after branchingRun
    (c.forward 1 ⟨9, 0, 0, [.field 0, .field 0]⟩).1 =
        .ok (.resolved ⟨"late", 8⟩ ⟨9, 0, 0, [.field 0, .field 0]⟩) ∧
      c.handedReturns.map (fun x => x.2.getResults) =
        [.ok { content := .struct 0, capTable := [some 0, some 1, some 2] }] ∧
      (c.messages.arena 0).caps.length = 4 ∧ c.WellPointed :=
  ⟨by decide +kernel, by decide +kernel, by decide +kernel,
    ((Reachable.initial {}).after branchingRun).wellPointed⟩

end Connection

end Callee
