import Callee.Proofs.Failing

set_option autoImplicit false

/-! # Room for a table of descriptors

A table of descriptors takes a word in front and two for each descriptor (`tableWords`). They are added up in 32
bits, before they are held against the limit. For fewer than `2 ^ 31` descriptors they fit, and then the table is
made exactly if the limit leaves room for it. From there on they do not fit, and the program panics, whether
there is room or not (`Message.Tabling`). -/

namespace Callee

/-- The words of a table of descriptors: one in front, and two for each. -/
def tableWords (n : Nat) : Nat := 1 + 2 * n

namespace Message

variable {m : Message} {a : Arena} {ret : Return} {payload : Payload} {len : UInt32}

/-- The limit leaves room for a number of words. -/
def HasWords (m : Message) (words : Nat) : Prop :=
  ∀ limit, m.arena.wordLimit = some limit → m.size + words ≤ limit

/-- A table that was paid for is made, and its descriptors are empty. -/
theorem initCapTable_of_paid (hroot : m.root = some (.return ret)) (hout : ret.outcome = .results payload)
    (hcharge : m.arena.charge (capTableWords len) = .ok a) : (m.initCapTable len).value = (.ok (), {
      arena := a,
      root := some (.return { ret with
        outcome := .results { payload with capTable := List.replicate len.toNat none } }) }) := by
  have hfill : ({ m with arena := a } : Message).modifyResults
      (fun payload => { payload with capTable := List.replicate len.toNat none }) = .ok _ :=
    modifyResults_eq_ok_iff.2 ⟨ret, payload, hroot, hout, rfl⟩
  unfold initCapTable
  dsimp only
  rw [hcharge]
  dsimp only
  rw [hfill]

/-! ## Making the table -/

/-- How room is made for a number of descriptors in a message with results. -/
structure Tabling (m : Message) (payload : Payload) (len : UInt32) : Prop where
  /-- Where there is room for the words of the table, they are charged, and the table holds that many empty
      descriptors. -/
  made : len.toNat < 2 ^ 31 → m.HasWords (tableWords len.toNat) →
    ∃ m', (m.initCapTable len).outcome? = some (.ok (), m') ∧ m'.size = m.size + tableWords len.toNat ∧
      m'.getResults = .ok { payload with capTable := List.replicate len.toNat none }
  /-- Where there is none, nothing is changed, and the limit is what is reported. -/
  refused : len.toNat < 2 ^ 31 → ¬ m.HasWords (tableWords len.toNat) →
    ∃ limit, m.arena.wordLimit = some limit ∧
      (m.initCapTable len).outcome? = some (.error (.sizeLimit limit), m)
  /-- From `2 ^ 31` descriptors on the program panics. -/
  panics : (m.initCapTable len).outcome? = none ↔ 2 ^ 31 ≤ len.toNat

/-- Room is made in all results in this way. -/
theorem tabling (h : m.getResults = .ok payload) (len : UInt32) : m.Tabling payload len := by
  obtain ⟨ret, hroot, hout⟩ := getResults_eq_ok_iff.1 h
  have calm (hfew : len.toNat < 2 ^ 31) : (m.initCapTable len).panicked = false :=
    Bool.eq_false_iff.2 fun hpanic => Nat.not_le_of_lt hfew (panicked_initCapTable_iff.1 hpanic)
  have hwords : capTableWords len = tableWords len.toNat := capTableWords_eq len
  constructor
  case made =>
    intro hfew hroom
    have hcharge : m.arena.charge (capTableWords len) = .ok _ :=
      (m.arena.charge_eq_ok_iff _ _).2 ⟨hwords ▸ hroom, rfl⟩
    refine ⟨_, Checked.outcome?_eq_some_iff.2 ⟨calm hfew, initCapTable_of_paid hroot hout hcharge⟩, ?_, rfl⟩
    exact congrArg (m.size + ·) hwords
  case refused =>
    intro hfew hfull
    cases hcharge : m.arena.charge (capTableWords len) with
    | ok a => exact absurd (hwords ▸ ((m.arena.charge_eq_ok_iff a _).1 hcharge).1) hfull
    | error e =>
        obtain ⟨limit, hlimit, -, rfl⟩ := (m.arena.charge_eq_error_iff _ _).1 hcharge
        refine ⟨limit, hlimit, Checked.outcome?_eq_some_iff.2 ⟨calm hfew, ?_⟩⟩
        simp only [initCapTable, hcharge]
  case panics => exact Checked.outcome?_eq_none_iff.trans panicked_initCapTable_iff

/-- A return with empty results, under a limit or under none. -/
def bareResults (limit : Option Nat) : Message where
  arena := { wordsUsed := 7, wordLimit := limit }
  root := some (.return { answerId := 1, outcome := .results {} })

theorem tabling_bareResults : (bareResults (some 12)).getResults = .ok {} ∧
    (bareResults (some 12)).Tabling {} 2 ∧ (bareResults (some 12)).Tabling {} 2147483648 :=
  ⟨rfl, tabling rfl 2, tabling rfl 2147483648⟩

/-- The program panics at `2 ^ 31` descriptors. They are not made where there is room for any number, and under a
    limit that is far too low they are not refused. -/
theorem panics_bareResults :
    (¬ ∀ (m : Message) (payload : Payload) (len : UInt32), m.getResults = .ok payload →
      ((∃ m', (m.initCapTable len).outcome? = some (.ok (), m') ∧ m'.size = m.size + tableWords len.toNat) ↔
        m.HasWords (tableWords len.toNat))) ∧
      ¬ ∀ (m : Message) (payload : Payload) (len : UInt32), m.getResults = .ok payload →
        ¬ m.HasWords (tableWords len.toNat) → ∃ e m', (m.initCapTable len).outcome? = some (.error e, m') := by
  have panics (limit : Option Nat) : ((bareResults limit).initCapTable 2147483648).outcome? = none :=
    Checked.outcome?_eq_none_iff.2 (panicked_initCapTable_iff.2 (by decide))
  constructor
  · intro hmade
    have hroom : (bareResults none).HasWords (tableWords (2147483648 : UInt32).toNat) :=
      fun limit hlimit => absurd hlimit (by simp [bareResults])
    obtain ⟨m', hdone, -⟩ := (hmade (bareResults none) {} 2147483648 rfl).2 hroom
    exact absurd (hdone.symm.trans (panics none)) (by simp)
  · intro hrefused
    have hfull : ¬ (bareResults (some 300)).HasWords (tableWords (2147483648 : UInt32).toNat) :=
      fun hroom => absurd (hroom 300 rfl) (by decide)
    obtain ⟨e, m', hfailed⟩ := hrefused (bareResults (some 300)) {} 2147483648 rfl hfull
    exact absurd (hfailed.symm.trans (panics (some 300))) (by simp)

end Message

end Callee
