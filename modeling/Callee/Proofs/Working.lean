import Callee.Exports.Basic
import Callee.Proofs.Building

set_option autoImplicit false

/-! # Rules for work on messages

What is done to a message that is under construction comes down to a few moves: words are charged, a capability is
added to the table, the return drops what it held, and something new is made its results. What every move does to
a message each operation does, as long as it can be chained. A relation between a message and what becomes of it is
a `MessageRule` if the moves have it, and then the operations have it too. -/

namespace Callee

/-- The moves that work on a message is made of. -/
structure MessageRule (R : Message → Message → Prop) : Prop where
  refl : ∀ m, R m m
  trans : ∀ {m m' m'' : Message}, R m m' → R m' m'' → R m m''
  charges : ∀ {m : Message} {a : Arena} {words : Nat}, m.arena.charge words = .ok a →
    R m { m with arena := a }
  adds : ∀ (m : Message) (cap : Capability), R m (m.addCapability cap).2
  /-- What the return held gives way to empty results or to an exception. -/
  drops : ∀ {m : Message} {ret : Return} {outcome : Outcome}, m.root = some (.return ret) →
    outcome = .results {} ∨ (∃ exc, outcome = .exception exc) →
      R m { m with root := some (.return { ret with outcome := outcome }) }
  /-- The results are pointed to a new struct. -/
  structs : ∀ {m : Message} {ret : Return} {payload : Payload} {size : ObjectSize} {index : Nat} {a : Arena},
    m.root = some (.return ret) → ret.outcome = .results payload → m.arena.newStruct size = .ok (index, a) →
      R m {
        arena := a
        root := some (.return { ret with outcome := .results { payload with content := .struct index } }) }
  /-- A new capability is the results. -/
  boots : ∀ {m : Message} {ret : Return} (cap : Capability), m.root = some (.return ret) →
    R m {
      arena := (m.arena.addCapability cap).2
      root := some (.return { ret with
        outcome := .results { content := .capability (m.arena.addCapability cap).1 } }) }
  /-- The results get a table without descriptors in it. -/
  tables : ∀ {m : Message} {ret : Return} {payload : Payload} (len : Nat), m.root = some (.return ret) →
    ret.outcome = .results payload → R m { m with
      root := some (.return { ret with
        outcome := .results { payload with capTable := List.replicate len none } }) }

namespace MessageRule

variable {R : Message → Message → Prop}

theorem initResults (rule : MessageRule R) {m m' : Message} (h : m.initResults = .ok m') : R m m' := by
  obtain ⟨ret, a, hroot, ha, rfl⟩ := Message.initResults_eq_ok h
  exact rule.trans (rule.charges ha) (rule.drops (m := { m with arena := a }) hroot (Or.inl rfl))

theorem initException (rule : MessageRule R) {m m' : Message} {type : ExceptionType}
    (h : m.initException type = .ok m') : R m m' := by
  obtain ⟨ret, a, hroot, ha, rfl⟩ := Message.initException_eq_ok h
  exact rule.trans (rule.charges ha) (rule.drops (m := { m with arena := a }) hroot (Or.inr ⟨_, rfl⟩))

theorem putReason (rule : MessageRule R) {m m' : Message} {reason : String}
    (h : m.putReason reason = .ok m') : R m m' := by
  obtain ⟨ret, exc, hroot, -, rfl⟩ := Message.putReason_eq_ok h
  exact rule.drops hroot (Or.inr ⟨_, rfl⟩)

/-! ## Building a return -/

theorem allocateResults (rule : MessageRule R) (m : Message) (size : ObjectSize) :
    R m (m.allocateResults size).2 := by
  unfold Message.allocateResults
  split
  · exact rule.refl m
  · next m₁ hinit =>
      have h₁ := rule.initResults hinit
      obtain ⟨ret, a₁, -, -, rfl⟩ := Message.initResults_eq_ok hinit
      split
      · exact h₁
      · next index m₂ hnew =>
          obtain ⟨a₂, hstruct, rfl⟩ := Message.newStruct_eq_ok hnew
          have hset := rule.structs (m := ⟨a₁, some (.return { ret with outcome := .results {} })⟩)
            rfl rfl hstruct
          exact rule.trans h₁ hset

theorem setBootstrap (rule : MessageRule R) (m : Message) (cap : Capability) :
    R m (m.setBootstrap cap).2 := by
  unfold Message.setBootstrap
  dsimp only
  split
  · exact rule.adds m cap
  · next m₂ hinit =>
      obtain ⟨ret, a, hroot, ha, rfl⟩ := Message.initResults_eq_ok hinit
      -- the words are charged between the two parts of the move, but nothing reads them there
      have hboot := rule.boots cap (m := m) hroot
      exact rule.trans hboot (rule.charges ha)

theorem ensureResults (rule : MessageRule R) (m : Message) : R m m.ensureResults.1 := by
  unfold Message.ensureResults
  split
  · exact rule.refl m
  · split
    · next m₁ hinit => exact rule.initResults hinit
    · exact rule.refl m

theorem initCapTable (rule : MessageRule R) (m : Message) (len : UInt32) : R m (m.initCapTable len).value.2 := by
  unfold Message.initCapTable
  dsimp only
  split
  · exact rule.refl m
  · next a ha =>
      split
      · exact rule.charges ha
      · next filled hfill =>
          obtain ⟨ret, payload, hroot, hout, rfl⟩ := Message.modifyResults_eq_ok_iff.1 hfill
          exact rule.trans (rule.charges ha) (rule.tables (m := { m with arena := a }) len.toNat hroot hout)

theorem writeException (rule : MessageRule R) (m : Message) (e : Error) : R m (m.writeException e).2 := by
  unfold Message.writeException
  split
  · exact rule.refl m
  · next m₁ hinit =>
      have h₁ := rule.initException hinit
      unfold Message.setExceptionReason
      split
      · exact h₁
      · next a ha =>
          have h₂ := rule.trans h₁ (rule.charges ha)
          dsimp only
          split
          · exact h₂
          · next filled hput => exact rule.trans h₂ (rule.putReason hput)

end MessageRule

/-- All moves of work on a message, also the one that writes descriptors. -/
structure SealingRule (R : Message → Message → Prop) : Prop extends MessageRule R where
  describes : ∀ {m : Message} {ret : Return} {payload : Payload} (table : List Descriptor),
    m.root = some (.return ret) → ret.outcome = .results payload → R m { m with
      root := some (.return { ret with outcome := .results { payload with capTable := table } }) }

namespace SealingRule

variable {R : Message → Message → Prop}

theorem writeDescriptors (rule : SealingRule R) (x : Exports) (m : Message) :
    R m (x.writeDescriptors m).value.2.1 := by
  have htable := rule.initCapTable m m.arena.caps.length.toUInt32
  rw [Exports.value_writeDescriptors]
  split
  · next heq =>
      rw [heq] at htable
      exact htable
  · next heq =>
      rw [heq] at htable
      dsimp only
      split
      · exact htable
      · next filled hfill =>
          obtain ⟨ret, payload, hroot, hout, rfl⟩ := Message.modifyResults_eq_ok_iff.1 hfill
          exact rule.trans htable (rule.describes _ hroot hout)

theorem writeResults (rule : SealingRule R) (x : Exports) (m : Message) (down : Bool) :
    R m (x.writeResults m down).message := by
  have hensure := rule.ensureResults m
  have hwrite := rule.writeDescriptors x m.ensureResults.1
  unfold Exports.writeResults
  dsimp only
  split
  · exact hensure
  · split <;> next heq => rw [heq] at hwrite; exact rule.trans hensure hwrite

end SealingRule

end Callee
