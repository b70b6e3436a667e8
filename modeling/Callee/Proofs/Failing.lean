import Callee.Message.Step
import Callee.Proofs.Describing

set_option autoImplicit false

/-! # Steps that fail

A step on a message can fail for two reasons: what the message holds speaks against it
(`Message.objection?`), or there is no room for the words that it charges. Which of the two is tried first
makes a difference. Nearly every step looks at the message first, and it leaves no trace when it fails. Writing
the reason of an exception and making room for descriptors charge first; where the message then speaks against
them the charge stays, and nothing else does. Words that do not fit into 32 bits are not charged at all, the
program panics where it adds them up. `Message.Failing` says so of every step on every message. -/

namespace Callee

/-- What an attempt failed with, if it failed. -/
def failure? {α : Type} : Except Error α → Option Error
  | .ok _ => none
  | .error e => some e

/-! ## Writes through a handle to a struct -/

/-- The words that a write charges, where it charges any. -/
def StructEdit.charge? : StructEdit → Option Nat
  | initStruct _ size => some size.total.toNat
  | _ => none

namespace Arena

variable {a b : Arena} {struct : Nat} {change : StructEdit} {e : Error}

/-- Charges words, where there are any to charge. -/
def pay (a : Arena) : Option Nat → Except Error Arena
  | some words => a.charge words
  | none => .ok a

/-- What speaks against a write: there is no such word or field. -/
def outside? (a : Arena) (struct : Nat) : StructEdit → Option Error
  | .setWord offset _ =>
      if offset.toNat < a.wordCount struct then none else some (.dataOutOfBounds offset.toNat)
  | .setCapability index _ =>
      if index.toNat < a.fieldCount struct then none else some (.pointerOutOfBounds index.toNat)
  | .initStruct index _ =>
      if index.toNat < a.fieldCount struct then none else some (.pointerOutOfBounds index.toNat)

theorem edit_of_outside (h : a.outside? struct change = some e) : a.edit struct change = .error e := by
  cases change with
  | setWord offset value =>
      obtain ⟨hout, rfl⟩ : ¬ offset.toNat < a.wordCount struct ∧ _ = e := by simpa [outside?] using h
      simp only [edit, setWord, if_neg hout, Except.map]
  | setCapability index cap =>
      obtain ⟨hout, rfl⟩ : ¬ index.toNat < a.fieldCount struct ∧ _ = e := by simpa [outside?] using h
      simp only [edit, setCapability, if_neg hout, Except.map]
  | initStruct index size =>
      obtain ⟨hout, rfl⟩ : ¬ index.toNat < a.fieldCount struct ∧ _ = e := by simpa [outside?] using h
      simp only [edit, initStruct, if_neg hout, Except.map]

theorem edit_of_unpaid (h : a.outside? struct change = none) (hpay : a.pay change.charge? = .error e) :
    a.edit struct change = .error e := by
  cases change with
  | initStruct index size =>
      have hin : index.toNat < a.fieldCount struct := by simpa [outside?] using h
      have hfull : a.allocate size.total = .error e := hpay
      simp only [edit, initStruct, if_pos hin, newStruct, hfull, Except.map]
  | _ => exact absurd hpay (by simp [pay, StructEdit.charge?])

theorem edit_of_paid (h : a.outside? struct change = none) (hpay : a.pay change.charge? = .ok b) :
    (a.edit struct change).map (fun r => r.2.wordsUsed) = .ok b.wordsUsed := by
  cases change with
  | setWord offset value =>
      have hin : offset.toNat < a.wordCount struct := by simpa [outside?] using h
      obtain rfl := Except.ok.inj hpay
      simp only [edit, setWord, if_pos hin, Except.map]
  | setCapability index cap =>
      have hin : index.toNat < a.fieldCount struct := by simpa [outside?] using h
      obtain rfl := Except.ok.inj hpay
      simp only [edit, setCapability, if_pos hin, Except.map, addCapability, putField]
  | initStruct index size =>
      have hin : index.toNat < a.fieldCount struct := by simpa [outside?] using h
      have hcharge : a.allocate size.total = .ok b := hpay
      simp only [edit, initStruct, if_pos hin, newStruct, hcharge, Except.map, putField]

end Arena

/-! ## Steps -/

namespace MessageStep

/-- The words that a step charges, where it charges any. -/
def charge? : MessageStep → Option Nat
  | initReturn _ => some (messageWords + returnWords).toNat
  | initAbort _ reason => some (abortWords reason)
  | initResults => some payloadWords.toNat
  | initException _ => some exceptionWords.toNat
  | setExceptionReason reason => some (textWords reason).toNat
  | initCapTable len => some (capTableWords len)
  | newStruct size => some size.total.toNat
  | edit _ change => change.charge?
  | _ => none

/-- The words that a step charges. -/
def charge (s : MessageStep) : Nat :=
  s.charge?.getD 0

/-- The words that a step charges do not fit into 32 bits. -/
def Overflows (s : MessageStep) : Prop :=
  UInt32.size ≤ s.charge

instance (s : MessageStep) : Decidable s.Overflows :=
  inferInstanceAs (Decidable (UInt32.size ≤ s.charge))

/-- Only the words of an abort and those of a table are added up from a length. -/
theorem overflows_iff {s : MessageStep} : s.Overflows ↔
    (∃ type reason, s = .initAbort type reason ∧ UInt32.size ≤ abortWords reason) ∨
      ∃ len, s = .initCapTable len ∧ UInt32.size ≤ capTableWords len := by
  constructor
  · intro h
    have fits (words : UInt32) : ¬ UInt32.size ≤ words.toNat := Nat.not_le_of_lt words.toNat_lt
    cases s with
    | initAbort type reason => exact Or.inl ⟨type, reason, rfl, h⟩
    | initCapTable len => exact Or.inr ⟨len, rfl, h⟩
    | initReturn id => exact absurd h (fits _)
    | initResults => exact absurd h (fits _)
    | initException type => exact absurd h (fits _)
    | setExceptionReason reason => exact absurd h (fits _)
    | newStruct size => exact absurd h (fits _)
    | edit struct change =>
        cases change with
        | initStruct index size => exact absurd h (fits _)
        | _ => exact absurd h (fits 0)
    | _ => exact absurd h (fits 0)
  · rintro (⟨type, reason, rfl, h⟩ | ⟨len, rfl, h⟩)
    · exact h
    · exact h

/-- The step charges its words before it looks at the message. -/
def chargesFirst : MessageStep → Bool
  | setExceptionReason _ => true
  | initCapTable _ => true
  | _ => false

end MessageStep

namespace Message

variable {m m' : Message} {s : MessageStep} {a : Arena} {e : Error}
variable {type : ExceptionType} {reason : String} {len : UInt32}

/-- What speaks against a step in the message, however much room there is. -/
def objection? (m : Message) : MessageStep → Option Error
  | .initResults => failure? m.getReturn
  | .initException _ => failure? m.getReturn
  | .address _ _ => failure? m.getReturn
  | .setExceptionReason reason => failure? (m.putReason reason)
  | .initCapTable _ => failure? m.getResults
  | .setContent _ => failure? m.getResults
  | .describe _ => failure? m.getResults
  | .edit struct change => m.arena.outside? struct change
  | _ => none

/-- The limit leaves room for the words that a step charges. -/
def HasRoomFor (m : Message) (s : MessageStep) : Prop :=
  ∀ words limit, s.charge? = some words → m.arena.wordLimit = some limit → m.size + words ≤ limit

/-- The words that a step charges go beyond the limit. -/
def Overruns (m : Message) (s : MessageStep) (limit : Nat) : Prop :=
  ∃ words, s.charge? = some words ∧ m.arena.wordLimit = some limit ∧ limit < m.size + words

/-- The message with the words of a step charged, and nothing else done. -/
def charged (m : Message) (s : MessageStep) : Message :=
  { m with arena := { m.arena with wordsUsed := m.size + s.charge } }

/-! ## Charges of steps -/

theorem hasRoomFor_or_overruns (m : Message) (s : MessageStep) :
    m.HasRoomFor s ∨ ∃ limit, m.Overruns s limit := by
  refine Classical.or_iff_not_imp_right.2 fun hnone words limit hwords hlimit => ?_
  exact Nat.le_of_not_lt fun hlt => hnone ⟨limit, words, hwords, hlimit, hlt⟩

theorem HasRoomFor.pay (h : m.HasRoomFor s) : m.arena.pay s.charge? = .ok (m.charged s).arena := by
  unfold Arena.pay charged MessageStep.charge
  cases hwords : s.charge? with
  | none => rfl
  | some words => exact (m.arena.charge_eq_ok_iff _ words).2 ⟨fun limit => h words limit hwords, rfl⟩

theorem Overruns.pay {limit : Nat} (h : m.Overruns s limit) :
    m.arena.pay s.charge? = .error (.sizeLimit limit) := by
  obtain ⟨words, hwords, hlimit, hlt⟩ := h
  unfold Arena.pay
  rw [hwords]
  exact (m.arena.charge_eq_error_iff words _).2 ⟨limit, hlimit, hlt, rfl⟩

/-! ## Looking and charging -/

theorem failure?_eq_some_iff {α : Type} {r : Except Error α} : failure? r = some e ↔ r = .error e := by
  cases r <;> simp [failure?]

theorem failure?_eq_none_iff {α : Type} {r : Except Error α} : failure? r = none ↔ ∃ x, r = .ok x := by
  cases r <;> simp [failure?]

/-- Whether a reason can be put in is a matter of the root. -/
theorem failure?_putReason (m : Message) (a : Arena) (reason : String) :
    failure? (({ m with arena := a } : Message).putReason reason) = failure? (m.putReason reason) := by
  unfold putReason modifyReturn getReturn
  obtain ⟨arena, root⟩ := m
  rcases root with _ | ⟨id, release, outcome⟩ | exc
  · rfl
  · cases outcome <;> rfl
  · rfl

/-- Changing the results changes the root. -/
theorem modifyResults_eq_root {payload : Payload} (h : m.getResults = .ok payload) (f : Payload → Payload) :
    ∃ root, m.modifyResults f = .ok { m with root := root } := by
  obtain ⟨ret, hroot, hout⟩ := getResults_eq_ok_iff.1 h
  exact ⟨_, modifyResults_eq_ok_iff.2 ⟨ret, payload, hroot, hout, rfl⟩⟩

/-- Where the words do not fit into 32 bits they are not even held against the limit. -/
theorem step_of_overflow (h : s.Overflows) : m.step s = (.panicked, m) := by
  rcases MessageStep.overflows_iff.1 h with ⟨type, reason, rfl, hover⟩ | ⟨len, rfl, hover⟩
  · exact m.check_of_panicked (decide_eq_true hover) m.settle
  · exact m.check_of_panicked (decide_eq_true hover) charge

theorem step_initAbort (h : ¬ (MessageStep.initAbort type reason).Overflows) :
    m.step (.initAbort type reason) = m.settle (m.initAbort type reason).value :=
  m.check_of_calm (decide_eq_false h) m.settle

theorem step_initCapTable (h : ¬ (MessageStep.initCapTable len).Overflows) :
    m.step (.initCapTable len) = charge (m.initCapTable len).value :=
  m.check_of_calm (decide_eq_false h) charge

/-- A step that looks at the message first fails there with everything left as it was. -/
theorem step_of_objection (hlate : s.chargesFirst = false) (h : m.objection? s = some e) :
    m.step s = (.failed e, m) := by
  cases s with
  | initResults =>
      have hret := failure?_eq_some_iff.1 h
      simp [step, initResults, hret, settle]
  | initException type =>
      have hret := failure?_eq_some_iff.1 h
      simp [step, initException, hret, settle]
  | setExceptionReason reason => exact absurd hlate (by simp [MessageStep.chargesFirst])
  | initCapTable len => exact absurd hlate (by simp [MessageStep.chargesFirst])
  | edit struct change =>
      have hedit : m.arena.edit struct change = .error e := Arena.edit_of_outside h
      simp only [step, hedit]
  | address id release =>
      have hret := failure?_eq_some_iff.1 h
      simp [step, modifyReturn, hret, settle, Except.map]
  | setContent p =>
      have hres := failure?_eq_some_iff.1 h
      simp only [step, setContent, modifyResults_eq_error_iff.2 hres, settle]
  | describe table =>
      have hres := failure?_eq_some_iff.1 h
      simp only [step, modifyResults_eq_error_iff.2 hres, settle]
  | _ => exact absurd h (by simp [objection?])

/-- Nothing is done if the charge does not fit. -/
theorem step_of_unpaid (hfits : ¬ s.Overflows) (hlook : s.chargesFirst = true ∨ m.objection? s = none)
    (h : m.arena.pay s.charge? = .error e) : m.step s = (.failed e, m) := by
  cases s with
  | initReturn id =>
      have hpay : m.arena.allocate (messageWords + returnWords) = .error e := h
      simp [step, initReturn, hpay, settle, Except.map]
  | initAbort type reason =>
      have hpay : m.arena.charge (abortWords reason) = .error e := h
      simp [step_initAbort hfits, initAbort, hpay, settle, Except.map]
  | initResults =>
      have hpay : m.arena.allocate payloadWords = .error e := h
      obtain ⟨ret, hret⟩ := failure?_eq_none_iff.1 (hlook.resolve_left (by simp [MessageStep.chargesFirst]))
      simp [step, initResults, hret, hpay, settle, Except.map]
  | initException type =>
      have hpay : m.arena.allocate exceptionWords = .error e := h
      obtain ⟨ret, hret⟩ := failure?_eq_none_iff.1 (hlook.resolve_left (by simp [MessageStep.chargesFirst]))
      simp [step, initException, hret, hpay, settle, Except.map]
  | setExceptionReason reason =>
      have hpay : m.arena.allocate (textWords reason) = .error e := h
      simp [step, setExceptionReason, hpay, charge, Ending.of, Except.map]
  | initCapTable len =>
      have hpay : m.arena.charge (capTableWords len) = .error e := h
      simp [step_initCapTable hfits, initCapTable, hpay, charge, Ending.of, Except.map]
  | newStruct size =>
      have hpay : m.arena.allocate size.total = .error e := h
      simp [step, newStruct, Arena.newStruct, hpay, Except.map]
  | edit struct change =>
      have hin := hlook.resolve_left (by simp [MessageStep.chargesFirst])
      simp only [step, Arena.edit_of_unpaid hin h]
  | _ => exact absurd (show Except.ok m.arena = .error e from h) (by simp)

/-- A step that has charged keeps the charge if it fails afterwards. -/
theorem step_of_paid_objection (hfits : ¬ s.Overflows) (hfirst : s.chargesFirst = true)
    (hpay : m.arena.pay s.charge? = .ok a) (h : m.objection? s = some e) :
    m.step s = (.failed e, { m with arena := a }) := by
  cases s with
  | setExceptionReason reason =>
      have hcharge : m.arena.allocate (textWords reason) = .ok a := hpay
      have hput := failure?_eq_some_iff.1 ((failure?_putReason m a reason).trans h)
      simp only [step, setExceptionReason, hcharge, hput, charge, Ending.of, Except.map]
  | initCapTable len =>
      have hcharge : m.arena.charge (capTableWords len) = .ok a := hpay
      have hres : ({ m with arena := a } : Message).getResults = .error e := failure?_eq_some_iff.1 h
      simp only [step_initCapTable hfits, initCapTable, hcharge, modifyResults_eq_error_iff.2 hres, charge,
        Ending.of, Except.map]
  | _ => exact absurd hfirst (by simp [MessageStep.chargesFirst])

/-- If nothing speaks against a step and its charge fits it is carried out, and charges no more. -/
theorem step_of_paid (hfits : ¬ s.Overflows) (h : m.objection? s = none)
    (hpay : m.arena.pay s.charge? = .ok a) :
    ∃ index, (m.step s).1 = .done index ∧ (m.step s).2.size = a.wordsUsed := by
  cases s with
  | initReturn id =>
      have hcharge : m.arena.allocate (messageWords + returnWords) = .ok a := hpay
      exact ⟨none, by simp [step, initReturn, hcharge, settle, Except.map, size]⟩
  | initAbort type reason =>
      have hcharge : m.arena.charge (abortWords reason) = .ok a := hpay
      exact ⟨none, by simp [step_initAbort hfits, initAbort, hcharge, settle, Except.map, size]⟩
  | initResults =>
      have hcharge : m.arena.allocate payloadWords = .ok a := hpay
      obtain ⟨ret, hret⟩ := failure?_eq_none_iff.1 h
      exact ⟨none, by simp [step, initResults, hret, hcharge, settle, Except.map, size]⟩
  | initException type =>
      have hcharge : m.arena.allocate exceptionWords = .ok a := hpay
      obtain ⟨ret, hret⟩ := failure?_eq_none_iff.1 h
      exact ⟨none, by simp [step, initException, hret, hcharge, settle, Except.map, size]⟩
  | setExceptionReason reason =>
      have hcharge : m.arena.allocate (textWords reason) = .ok a := hpay
      obtain ⟨m', hput⟩ := failure?_eq_none_iff.1 ((failure?_putReason m a reason).trans h)
      obtain ⟨ret, exc, -, -, rfl⟩ := putReason_eq_ok hput
      exact ⟨none, by simp [step, setExceptionReason, hcharge, hput, charge, Ending.of, Except.map, size]⟩
  | initCapTable len =>
      have hcharge : m.arena.charge (capTableWords len) = .ok a := hpay
      obtain ⟨payload, hres⟩ := failure?_eq_none_iff.1 h
      have hcharged : ({ m with arena := a } : Message).getResults = .ok payload := hres
      obtain ⟨root, hfill⟩ := modifyResults_eq_root hcharged
        fun payload => { payload with capTable := List.replicate len.toNat none }
      refine ⟨none, ?_⟩
      simp [step_initCapTable hfits, initCapTable, hcharge, hfill, charge, Ending.of, Except.map, size]
  | newStruct struct =>
      have hcharge : m.arena.allocate struct.total = .ok a := hpay
      exact ⟨some a.structs.length, by simp [step, newStruct, Arena.newStruct, hcharge, Except.map, size]⟩
  | addCapability cap =>
      obtain rfl := Except.ok.inj hpay
      exact ⟨some _, rfl, rfl⟩
  | edit struct change =>
      obtain ⟨⟨child, b⟩, hedit, hused⟩ := exists_of_map_eq_ok (Arena.edit_of_paid h hpay)
      exact ⟨child, by simp [step, hedit, size, ← hused]⟩
  | address id release =>
      obtain ⟨ret, hret⟩ := failure?_eq_none_iff.1 h
      obtain rfl := Except.ok.inj hpay
      exact ⟨none, by simp [step, modifyReturn, hret, settle, Except.map, size]⟩
  | setContent p =>
      obtain ⟨payload, hres⟩ := failure?_eq_none_iff.1 h
      obtain rfl := Except.ok.inj hpay
      obtain ⟨root, hset⟩ := modifyResults_eq_root hres fun payload => { payload with content := p }
      exact ⟨none, by simp [step, setContent, hset, settle, size]⟩
  | describe table =>
      obtain ⟨payload, hres⟩ := failure?_eq_none_iff.1 h
      obtain rfl := Except.ok.inj hpay
      obtain ⟨root, hset⟩ := modifyResults_eq_root hres fun payload =>
        if table.length = payload.capTable.length then { payload with capTable := table } else payload
      exact ⟨none, by simp [step, hset, settle, size]⟩

/-- All that a step may come to. -/
theorem step_cases (m : Message) (s : MessageStep) :
    (s.Overflows ∧ m.step s = (.panicked, m)) ∨ ¬ s.Overflows ∧
      ((∃ index, (m.step s).1 = .done index) ∨ (∃ e, m.step s = (.failed e, m)) ∨
        s.chargesFirst = true ∧ m.HasRoomFor s ∧ ∃ e, m.objection? s = some e ∧
          m.step s = (.failed e, m.charged s)) := by
  by_cases hover : s.Overflows
  · exact Or.inl ⟨hover, step_of_overflow hover⟩
  refine Or.inr ⟨hover, ?_⟩
  cases hlook : m.objection? s with
  | none =>
      rcases m.hasRoomFor_or_overruns s with hroom | ⟨limit, hfull⟩
      · obtain ⟨index, hdone, -⟩ := step_of_paid hover hlook hroom.pay
        exact Or.inl ⟨index, hdone⟩
      · exact Or.inr (Or.inl ⟨_, step_of_unpaid hover (Or.inr hlook) hfull.pay⟩)
  | some e =>
      cases hfirst : s.chargesFirst with
      | false => exact Or.inr (Or.inl ⟨e, step_of_objection hfirst hlook⟩)
      | true =>
          rcases m.hasRoomFor_or_overruns s with hroom | ⟨limit, hfull⟩
          · exact Or.inr (Or.inr ⟨rfl, hroom, e, rfl, step_of_paid_objection hover hfirst hroom.pay hlook⟩)
          · exact Or.inr (Or.inl ⟨_, step_of_unpaid hover (Or.inl hfirst) hfull.pay⟩)

theorem step_eq_panicked_iff : (m.step s).1 = .panicked ↔ s.Overflows := by
  rcases m.step_cases s with ⟨hover, h⟩ | ⟨hfits, ⟨index, h⟩ | ⟨e, h⟩ | ⟨-, -, e, -, h⟩⟩
  · exact iff_of_true (by rw [h]) hover
  · exact iff_of_false (by simp [h]) hfits
  · exact iff_of_false (by simp [h]) hfits
  · exact iff_of_false (by simp [h]) hfits

/-- There is no other way to fail. -/
theorem step_failed_cases (h : m.step s = (.failed e, m')) :
    m' = m ∨ s.chargesFirst = true ∧ m.HasRoomFor s ∧ m.objection? s = some e ∧ m' = m.charged s := by
  rcases m.step_cases s with ⟨-, heq⟩ | ⟨-, ⟨index, heq⟩ | ⟨x, heq⟩ | ⟨hfirst, hroom, x, hlook, heq⟩⟩
  · exact absurd (congrArg Prod.fst (h.symm.trans heq)) (by simp)
  · exact absurd heq (by simp [h])
  · exact Or.inl (congrArg Prod.snd (h.symm.trans heq))
  · obtain ⟨hx, hm⟩ := Prod.mk.inj (h.symm.trans heq)
    obtain rfl := Ending.failed.inj hx
    exact Or.inr ⟨hfirst, hroom, hlook, hm⟩

/-! ## What is left of the message -/

/-- How a step on a message fails, and what is left of the message then. -/
structure Failing (m : Message) (s : MessageStep) : Prop where
  /-- Its words fit into 32 bits, nothing speaks against the step and there is room: it is carried out and
      charges its words. -/
  succeeds : ¬ s.Overflows → m.objection? s = none → m.HasRoomFor s →
    ∃ index, (m.step s).1 = .done index ∧ (m.step s).2.size = m.size + s.charge
  /-- Where it looks at the message first and something speaks against it, the message is left as it was. -/
  refused : s.chargesFirst = false → ∀ e, m.objection? s = some e → m.step s = (.failed e, m)
  /-- Where there is no room, and nothing else was noticed before, the message is left as it was. -/
  cramped : ¬ s.Overflows → s.chargesFirst = true ∨ m.objection? s = none →
    ∀ limit, m.Overruns s limit → m.step s = (.failed (.sizeLimit limit), m)
  /-- Where it charges first, and there is room but something speaks against it, the charge is left. -/
  charged : ¬ s.Overflows → s.chargesFirst = true → m.HasRoomFor s →
    ∀ e, m.objection? s = some e → m.step s = (.failed e, m.charged s)
  /-- There is no other way to fail. -/
  only : ∀ e m', m.step s = (.failed e, m') →
    m' = m ∨ s.chargesFirst = true ∧ m.HasRoomFor s ∧ m.objection? s = some e ∧ m' = m.charged s
  /-- It panics exactly if its words do not fit into 32 bits, before it has looked at anything. -/
  panics : ((m.step s).1 = .panicked ↔ s.Overflows) ∧ (s.Overflows → (m.step s).2 = m)

/-- Every step on every message fails in one of these ways, and leaves no more behind than a charge that it has
    made in advance. -/
theorem failing (m : Message) (s : MessageStep) : m.Failing s := by
  constructor
  case succeeds => exact fun hfits hlook hroom => step_of_paid hfits hlook hroom.pay
  case refused => exact fun hlate e hlook => step_of_objection hlate hlook
  case cramped => exact fun hfits hlook limit hfull => step_of_unpaid hfits hlook hfull.pay
  case charged => exact fun hfits hfirst hroom e hlook => step_of_paid_objection hfits hfirst hroom.pay hlook
  case only => exact fun e m' hstep => step_failed_cases hstep
  case panics => exact ⟨step_eq_panicked_iff, fun hover => congrArg Prod.snd (step_of_overflow hover)⟩

/-- A return that holds nothing yet. The reason of an exception cannot be put into it, and is paid for. -/
theorem charged_without_exception : ¬ ∀ (m : Message) (s : MessageStep) (e : Error) (m' : Message),
    m.step s = (.failed e, m') → m' = m := by
  intro hkept
  let bare : Message := { arena := { wordsUsed := 5 }, root := some (.return { answerId := 1 }) }
  have hstep : bare.step (.setExceptionReason "busy") =
      (.failed .notAnException, { bare with arena := { wordsUsed := 6 } }) := by decide +kernel
  have hsame := congrArg Message.size (hkept _ _ _ _ hstep)
  exact absurd hsame (by decide)

end Message

end Callee
