import Callee.Proofs.ExportTable
import Callee.Proofs.Running
import Callee.Proofs.Storage

set_option autoImplicit false

/-! # Handing out references

References come to the peer with the results of a call, and with nothing else: `writeResults` either
leaves the exports alone or counts up exactly what the message names, slot by slot
(`Exports.writeResults_spec`). `Begun` says the same of the beginning of a return, which notes on the
answer what was counted up. -/

namespace Callee

namespace Exports

/-! ## Writing results -/

/-- Each id names the capability in the slot at its place. -/
def Matches (x : Exports) (caps : List (Option Capability)) (ids : List ExportId) : Prop :=
  ∀ (i : Nat) (e : ExportId), ids[i]? = some e → ∃ cap, caps[i]? = some (some cap) ∧ x.Names e cap

theorem matches_nil (x : Exports) (caps : List (Option Capability)) : x.Matches caps [] :=
  fun i e h => absurd h (by simp)

/-- If every slot is filled then no descriptor is empty, and the ids stand at the places of their
    slots. -/
theorem matches_of_describes {x : Exports} {slots : List Capability} {ds : List Descriptor}
    (h : List.Forall₂ x.Describes (slots.map some) ds) : x.Matches (slots.map some) (ds.filterMap id) := by
  induction slots generalizing ds with
  | nil =>
      obtain rfl := List.forall₂_nil_left_iff.1 h
      exact x.matches_nil _
  | cons cap rest ih =>
      obtain ⟨d, ds', hd, hrest, rfl⟩ := List.forall₂_cons_left_iff.1 h
      cases d with
      | none => exact hd.elim
      | some e =>
          intro i e' he'
          cases i with
          | zero =>
              obtain rfl : e = e' := by simpa using he'
              exact ⟨cap, rfl, hd⟩
          | succ i =>
              obtain ⟨cap', hcap', hnames⟩ := ih hrest i e' (by simpa using he')
              exact ⟨cap', by simpa using hcap', hnames⟩

/-- Each slot of a message has been described, and what the message names has been counted up. -/
structure Written (x : Exports) (m : Message) (ids : List ExportId) (x' : Exports) (m' : Message) :
    Prop where
  arena : m.arena.Extends m'.arena
  hosted : m'.hosted = ids
  added : x.Added ids x'
  matching : m.arena.Filled → x'.Matches m'.arena.caps ids
  root : ∃ ret payload, m'.root = some (.return ret) ∧ ret.outcome = .results payload

/-- Making room for descriptors charges words and leaves the results without any. -/
theorem initCapTable_ok {m m' : Message} {len : UInt32} (h : (m.initCapTable len).value = (.ok (), m')) :
    ∃ ret payload words, m.root = some (.return ret) ∧ ret.outcome = .results payload ∧
      m' = { arena := { m.arena with wordsUsed := words },
             root := some (.return { ret with
               outcome := .results { payload with capTable := List.replicate len.toNat none } }) } := by
  unfold Message.initCapTable at h
  dsimp only at h
  split at h
  · exact absurd (congrArg Prod.fst h) (by simp)
  · next a ha =>
      split at h
      · exact absurd (congrArg Prod.fst h) (by simp)
      · next filled hfill =>
          obtain ⟨-, rfl⟩ := (Arena.charge_eq_ok_iff m.arena a _).1 ha
          obtain ⟨ret, payload, hroot, hout, rfl⟩ := Message.modifyResults_eq_ok_iff.1 hfill
          obtain rfl := congrArg Prod.snd h
          exact ⟨ret, payload, _, hroot, hout, rfl⟩

/-- Either there is no room for descriptors and nothing is exported, or each slot of the message has its
    descriptor in the results, which are otherwise as they were. -/
theorem writeDescriptors_cases (x : Exports) (m : Message) :
    (∃ e, (m.initCapTable m.arena.caps.length.toUInt32).value.1 = .error e ∧ (x.writeDescriptors m).value =
        (.error e, (m.initCapTable m.arena.caps.length.toUInt32).value.2, x)) ∨
      ∃ ret payload words, m.root = some (.return ret) ∧ ret.outcome = .results payload ∧
        (x.writeDescriptors m).value = (.ok ((x.describe m.arena.caps).value.1.filterMap id),
          { arena := { m.arena with wordsUsed := words },
            root := some (.return { ret with
              outcome := .results { payload with capTable := (x.describe m.arena.caps).value.1 } }) },
          (x.describe m.arena.caps).value.2) := by
  rw [value_writeDescriptors]
  split
  · next e m₁ hinit => exact Or.inl ⟨e, by rw [hinit], by rw [hinit]⟩
  · next m₁ hinit =>
      obtain ⟨ret, payload, words, hroot, hout, rfl⟩ := initCapTable_ok hinit
      exact Or.inr ⟨ret, payload, words, hroot, hout, rfl⟩

/-- Either nothing is exported and the message names nothing new, or each slot of the message is
    described and counted. -/
theorem writeDescriptors_spec {x : Exports} (hx : x.WF) (m : Message) :
    (∃ e, (x.writeDescriptors m).value.1 = .error e ∧ (x.writeDescriptors m).value.2.2 = x ∧
        m.Worked (x.writeDescriptors m).value.2.1) ∨
      ∃ ids, (x.writeDescriptors m).value.1 = .ok ids ∧
        x.Written m ids (x.writeDescriptors m).value.2.2 (x.writeDescriptors m).value.2.1 := by
  rcases x.writeDescriptors_cases m with ⟨e, -, heq⟩ | ⟨ret, payload, words, hroot, hout, heq⟩
  · rw [heq]
    exact Or.inl ⟨e, rfl, rfl, Message.worked_rule.initCapTable m _⟩
  · obtain ⟨hadded, hdescribes⟩ := describe_spec hx m.arena.caps
    rw [heq]
    refine Or.inr ⟨_, rfl, Arena.extends_of_caps rfl, rfl, hadded, fun hfilled => ?_, _, _, rfl, rfl⟩
    -- no slot is empty, so the ids stand where their slots do
    obtain ⟨slots, hslots⟩ := hfilled
    show (x.describe m.arena.caps).value.2.Matches m.arena.caps _
    rw [hslots] at hdescribes ⊢
    exact matches_of_describes hdescribes

theorem writeResults_down (x : Exports) (m : Message) :
    (x.writeResults m true).ids = none ∧ (x.writeResults m true).exports = x ∧
      m.Worked (x.writeResults m true).message :=
  ⟨rfl, rfl, Message.worked_rule.ensureResults m⟩

theorem writeResults_spec {x : Exports} (hx : x.WF) (m : Message) :
    ((x.writeResults m false).ids = none ∧ (x.writeResults m false).exports = x ∧
        m.Worked (x.writeResults m false).message) ∨
      ∃ ids, (x.writeResults m false).ids = some ids ∧
        x.Written m ids (x.writeResults m false).exports (x.writeResults m false).message := by
  have hwork := Message.worked_rule.ensureResults m
  have hspec := writeDescriptors_spec hx m.ensureResults.1
  unfold writeResults
  simp only [Bool.false_eq_true, if_false]
  rcases hspec with ⟨e, herr, hsame, hmore⟩ | ⟨ids, hok, hwritten⟩
  · left
    split
    · next heq => rw [heq] at herr; exact absurd herr (by simp)
    · next heq =>
        rw [heq] at hsame hmore
        exact ⟨rfl, hsame, hwork.trans hmore⟩
  · right
    split
    · next heq =>
        rw [heq] at hok hwritten
        obtain rfl := Except.ok.inj hok
        exact ⟨_, rfl, hwork.arena.trans hwritten.arena, hwritten.hosted, hwritten.added,
          fun hm => hwritten.matching (hwork.arena.filled hm), hwritten.root⟩
    · next heq => rw [heq] at hok; exact absurd hok (by simp)

end Exports

/-! ## Beginning a return -/

theorem Envelope.results?_of_root {e : Envelope} {ret : Return} {payload : Payload}
    (hroot : e.root = some (.return ret)) (hout : ret.outcome = .results payload) :
    e.results? = some { arena := e.arena, content := payload.content } := by
  obtain ⟨id, release, outcome⟩ := ret
  obtain rfl : outcome = .results payload := hout
  simp [Envelope.results?, hroot]

theorem MessageStore.arena_of_results? {s : MessageStore} {e : Envelope} {m : Message} {r : ResultsRef}
    (h : (s.put e m).1.results? = some r) : r.arena = e.arena := by
  unfold Envelope.results? at h
  split at h
  · obtain rfl := Option.some.inj h
    rfl
  · exact absurd h (by simp)

namespace Connection

/-- The references that a return hands to the peer. -/
def BegunReturn.hosted (begun : BegunReturn) : List ExportId :=
  (begun.envelope.map Envelope.hosted).getD []

/-- What the beginning of a return makes of an answer and of the exports. -/
structure Begun (c : Connection) (id : AnswerId) (a : Answer) (begun : BegunReturn)
    (c' : Connection) (a' : Answer) : Prop where
  answers : c'.answers = c.answers.insert id a'
  link : c'.link = c.link
  nextCall : c'.nextCall = c.nextCall
  messages : c.messages.Extends c'.messages
  call : a'.call = a.call
  message : a'.message = none
  state : a'.state = a.state.markResultsReady
  results : ∀ r, a'.results = some r → a.results = some r ∨
    ∃ e, a.message = some e ∧ r.arena = e.arena
  /-- Either the exports are left alone, or those that the return names are counted up and noted. -/
  exports : c'.exports = c.exports ∧ a'.exports = a.exports ∧ begun.hosted = [] ∧
      (a.message = none → a'.results = a.results) ∨
    a.message ≠ none ∧ c.exports.Added a'.exports c'.exports ∧ begun.hosted = a'.exports ∧
      ((∀ j, (c.messages.arena j).Filled) → ∃ r, a'.results = some r ∧
        c'.exports.Matches (c'.messages.arena r.arena).caps a'.exports)

theorem returnResults_begun (c : Connection) (hx : c.exports.WF) {id : AnswerId} {a : Answer}
    {e : Envelope} (hmsg : a.message = some e) (hopen : e.hosted = []) :
    ∃ a', Begun c id a (c.returnResults id (a.complete none) e).1
      (c.returnResults id (a.complete none) e).2 a' := by
  unfold returnResults
  simp only [reportAll_shape]
  cases hdown : c.isDown with
  | true =>
      obtain ⟨hids, hsame, hwork⟩ := c.exports.writeResults_down (c.messages.message e)
      refine ⟨_, rfl, rfl, rfl, MessageStore.extends_put hwork, rfl, rfl, rfl, fun r hr => ?_,
        Or.inl ⟨hsame, ?_, rfl, fun hnone => absurd hnone (by simp [hmsg])⟩⟩
      · exact Or.inr ⟨e, hmsg, MessageStore.arena_of_results? hr⟩
      · rw [hids]
        rfl
  | false =>
      rcases Exports.writeResults_spec hx (c.messages.message e) with
        ⟨hids, hsame, hwork⟩ | ⟨ids, hids, hext, hhosted, hadded, hmatch, ret, payload, hroot, hout⟩
      · -- the results go out without descriptors, and nothing is noted
        refine ⟨_, rfl, rfl, rfl, MessageStore.extends_put hwork, rfl, rfl, rfl, fun r hr => ?_,
          Or.inl ⟨hsame, ?_, ?_, fun hnone => absurd hnone (by simp [hmsg])⟩⟩
        · exact Or.inr ⟨e, hmsg, MessageStore.arena_of_results? hr⟩
        · rw [hids]
          rfl
        · exact hwork.hosted hopen
      · refine ⟨_, rfl, rfl, rfl, MessageStore.extends_putArena hext, rfl, rfl, rfl, fun r hr => ?_,
          Or.inr ⟨by simp [hmsg], ?_, ?_, fun hfilled => ?_⟩⟩
        · exact Or.inr ⟨e, hmsg, MessageStore.arena_of_results? hr⟩
        · rw [hids]
          exact hadded
        · rw [hids]
          exact hhosted
        · refine ⟨_, Envelope.results?_of_root hroot hout, ?_⟩
          have harena := c.messages.arena_putArena_self e.arena
            (c.exports.writeResults (c.messages.message e) false).message.arena
          have hslots := hmatch (hfilled e.arena)
          rw [hids]
          simpa [MessageStore.put, harena] using hslots

theorem returnError_begun (c : Connection) (id : AnswerId) (a : Answer) {e : Envelope} (x : Error)
    (hopen : e.hosted = []) :
    ∃ a', Begun c id a (c.returnError id (a.complete (some x)) e x).1
      (c.returnError id (a.complete (some x)) e x).2 a' := by
  have hwork := Message.worked_rule.writeException (c.messages.message e) x
  unfold returnError
  dsimp only
  split
  · exact ⟨_, rfl, rfl, rfl, MessageStore.extends_put hwork, rfl, rfl, rfl, fun r hr => Or.inl hr,
      Or.inl ⟨rfl, rfl, rfl, fun _ => rfl⟩⟩
  · refine ⟨_, rfl, rfl, rfl, MessageStore.extends_put hwork, rfl, rfl, rfl, fun r hr => Or.inl hr,
      Or.inl ⟨rfl, rfl, ?_, fun _ => rfl⟩⟩
    show BegunReturn.hosted ⟨if c.isDown = true then none else some _, _⟩ = []
    cases c.isDown with
    | true => rfl
    | false => exact hwork.hosted hopen

theorem beginReturn_begun (c : Connection) (hx : c.exports.WF) {id : AnswerId} {a : Answer}
    (ha : c.answers.get? id = some a) (hopen : ∀ e, a.message = some e → e.hosted = [])
    (result : Except Error Unit) : ∃ begun c' a', c.beginReturn id result = (some begun, c') ∧
      Begun c id a begun c' a' := by
  unfold beginReturn
  rw [ha]
  dsimp only
  split
  · next hmsg =>
      exact ⟨_, _, _, rfl, rfl, rfl, rfl, .refl _, rfl, rfl, rfl, fun r hr => Or.inl hr,
        Or.inl ⟨rfl, rfl, rfl, fun _ => rfl⟩⟩
  · next e hmsg =>
      obtain ⟨a', h⟩ := c.returnResults_begun hx hmsg (hopen e hmsg)
      exact ⟨_, _, a', rfl, h⟩
  · next e x hmsg =>
      obtain ⟨a', h⟩ := c.returnError_begun id a x (hopen e hmsg)
      exact ⟨_, _, a', rfl, h⟩

end Connection

end Callee
