import Callee.Proofs.Outcomes
import Callee.Proofs.Raising
import Callee.Proofs.Tabling
import Mathlib.Algebra.GroupWithZero.Nat

set_option autoImplicit false

/-! # What a message holds is paid for

A message is charged step by step, and nothing is refunded. What it holds at the end is less than what was
charged for it, as a rule: roots and results are replaced, structs are forgotten, and some steps fail and keep
their charge all the same. It is never more. A step adds no more words to what the message holds than it
charges (`Message.Pays`), so the charge of a whole run covers what is there after it, and goes by the limit
(`Message.Budgeted`). Texts and tables must be small enough for their words to be counted in 32 bits
(`MessageStep.Countable`). -/

namespace Callee

/-- What a change of one entry does to a view of the entries, it does to the view of that one. -/
theorem map_modify {α β : Type} {view : α → β} {f : α → α} {g : β → β}
    (h : ∀ x, view (f x) = g (view x)) (xs : List α) (i : Nat) :
    (xs.modify i f).map view = (xs.map view).modify i g := by
  refine List.ext_getElem (by simp) fun k hk hk' => ?_
  simp only [List.getElem_map, List.getElem_modify]
  split
  · exact h _
  · rfl

/-- A view that does not show a change stays the same. -/
theorem map_modify_of_eq {α β : Type} {view : α → β} {f : α → α} (h : ∀ x, view (f x) = view x)
    (xs : List α) (i : Nat) : (xs.modify i f).map view = xs.map view :=
  (map_modify h xs i).trans (List.modify_id ..)

/-! ## The words of structs -/

/-- The words of a struct: those of its data section and those of its pointer section. -/
def StructBody.words (body : StructBody) : Nat := body.data.length + body.pointers.length

theorem StructBody.words_blank (size : ObjectSize) : (StructBody.blank size).words = size.total.toNat := by
  have hdata := size.data.toNat_lt
  have hpointers := size.pointers.toNat_lt
  simp only [words, blank, List.length_replicate, ObjectSize.total, UInt32.toNat_add, UInt16.toNat_toUInt32]
  omega

namespace Arena

variable {a b : Arena}

/-- The words of all structs, also of those that nothing points to. -/
def structWords (a : Arena) : Nat := (a.structs.map StructBody.words).sum

theorem structWords_putField (a : Arena) (struct : Nat) (index : UInt16) (p : Pointer) :
    (a.putField struct index p).structWords = a.structWords := by
  unfold structWords putField
  rw [map_modify_of_eq]
  exact fun body => by simp [StructBody.words]

/-- A new struct is charged with its words. -/
theorem structWords_newStruct {size : ObjectSize} {index : Nat} (h : a.newStruct size = .ok (index, b)) :
    b.structWords + a.wordsUsed = a.structWords + b.wordsUsed := by
  obtain ⟨d, ha, -, rfl⟩ := newStruct_eq_ok h
  obtain ⟨-, rfl⟩ := (allocate_eq_ok_iff a d _).1 ha
  simp only [structWords, List.map_append, List.sum_append, List.map_cons, List.map_nil, List.sum_cons,
    List.sum_nil, StructBody.words_blank]
  omega

/-- A write through a handle to a struct charges the words that it adds. -/
theorem structWords_edit {struct : Nat} {change : StructEdit} {child : Option Nat}
    (h : a.edit struct change = .ok (child, b)) :
    b.structWords + a.wordsUsed = a.structWords + b.wordsUsed := by
  rcases edit_cases h with ⟨offset, value, -, -, hset⟩ | ⟨index, cap, -, -, rfl⟩ |
    ⟨index, size, i, d, -, -, hnew, rfl⟩
  · obtain rfl := setWord_eq_ok hset
    unfold structWords
    rw [map_modify_of_eq]
    exact fun body => by simp [StructBody.words]
  · rw [structWords_putField]
    rfl
  · rw [structWords_putField]
    exact structWords_newStruct hnew

theorem charges_pay {words? : Option Nat} (h : a.pay words? = .ok b) : a.Charges b := by
  cases words? with
  | none =>
      obtain rfl := Except.ok.inj h
      exact charges_of_eq rfl rfl
  | some words => exact charges_of_charge h

end Arena

/-! ## The words of the root -/

/-- The words of a text: its bytes and a closing zero, rounded up. -/
def textLength (text : String) : Nat := (text.utf8ByteSize + 1 + 7) / 8

/-- The words of the table in results with `n` descriptors. Without descriptors there need not be one, and
    `tabled` says whether one was made. -/
def tableShare (tabled : Bool) (n : Nat) : Nat :=
  if tabled = false ∧ n = 0 then 0 else tableWords n

/-- The words of what a return holds. -/
def Outcome.words (tabled : Bool) : Outcome → Nat
  | .unset => 0
  | .results payload => payloadWords.toNat + tableShare tabled payload.capTable.length
  | .exception exc => exceptionWords.toNat + if exc.reason = "" then 0 else textLength exc.reason

/-- The words of a root, and of the message in front of it. -/
def Root.words (tabled : Bool) : Root → Nat
  | .return ret => bareWords + ret.outcome.words tabled
  | .abort exc => (messageWords + exceptionWords).toNat + textLength exc.reason

namespace MessageStep

/-- The words of the step's text or table can be counted in 32 bits. -/
def Countable : MessageStep → Prop
  | initAbort _ reason => reason.utf8ByteSize < 2 ^ 32
  | setExceptionReason reason => reason.utf8ByteSize < 2 ^ 32
  | initCapTable len => len.toNat < 2 ^ 31
  | _ => True

instance (s : MessageStep) : Decidable s.Countable :=
  match s with
  | initAbort _ reason => inferInstanceAs (Decidable (reason.utf8ByteSize < 2 ^ 32))
  | setExceptionReason reason => inferInstanceAs (Decidable (reason.utf8ByteSize < 2 ^ 32))
  | initCapTable len => inferInstanceAs (Decidable (len.toNat < 2 ^ 31))
  | initReturn _ | initResults | initException _ | newStruct _ | addCapability _ | edit _ _ | address _ _
  | setContent _ | describe _ => .isTrue trivial

/-- Whether the step makes a table of descriptors or starts anew without one, where it does either. -/
def tables? : MessageStep → Option Bool
  | initCapTable _ => some true
  | initReturn _ => some false
  | initAbort _ _ => some false
  | initResults => some false
  | initException _ => some false
  | _ => none

end MessageStep

namespace Message

variable {m m' : Message} {s : MessageStep} {tabled tabled' : Bool}

/-- Whether a table of descriptors was made, after one more step. A step that fails does not change that. -/
def tabledBy (m : Message) (tabled : Bool) (s : MessageStep) : Bool :=
  match (m.step s).1 with
  | .done _ => s.tables?.getD tabled
  | .failed _ => tabled
  | .panicked => tabled

/-- Whether a table of descriptors was made for what the message holds, after a sequence of steps. -/
def tabledAfter (m : Message) (tabled : Bool) : List MessageStep → Bool
  | [] => tabled
  | s :: rest => (m.step s).2.tabledAfter (m.tabledBy tabled s) rest

/-- The words of the root, if it has been chosen. -/
def rootWords (m : Message) (tabled : Bool) : Nat :=
  match m.root with
  | some root => root.words tabled
  | none => 0

/-- The words of all that a message holds. -/
def held (m : Message) (tabled : Bool) : Nat := m.rootWords tabled + m.arena.structWords

/-! ## Charges of steps -/

/-- What was charged is within the limit, and no less than what was added to what the message holds. -/
structure Pays (m : Message) (tabled : Bool) (m' : Message) (tabled' : Bool) : Prop
    extends m.arena.Charges m'.arena where
  covers : m'.held tabled' + m.size ≤ m.held tabled + m'.size

theorem Pays.refl (m : Message) (tabled : Bool) : m.Pays tabled m tabled where
  toCharges := Arena.charges_of_eq rfl rfl
  covers := Nat.le_refl _

theorem Pays.trans {m₁ m₂ m₃ : Message} {t₁ t₂ t₃ : Bool} (h : m₁.Pays t₁ m₂ t₂) (h' : m₂.Pays t₂ m₃ t₃) :
    m₁.Pays t₁ m₃ t₃ where
  limit := h'.limit.trans h.limit
  more := Nat.le_trans h.more h'.more
  fits hfits := h'.fits (h.fits hfits)
  covers := by
    have hfirst := h.covers
    have hsecond := h'.covers
    omega

/-- A root is replaced, and what it has more is charged. -/
theorem pays_of_charge {a : Arena} {words : Nat} {root : Option Root} (ha : m.arena.charge words = .ok a)
    (h : ({ arena := a, root := root } : Message).rootWords tabled' ≤ m.rootWords tabled + words) :
    m.Pays tabled { arena := a, root := root } tabled' where
  toCharges := Arena.charges_of_charge ha
  covers := by
    obtain ⟨-, rfl⟩ := (m.arena.charge_eq_ok_iff a words).1 ha
    simp only [held, size, Arena.structWords] at h ⊢
    omega

theorem rootWords_of_return {ret : Return} (hroot : m.root = some (.return ret)) :
    m.rootWords tabled = bareWords + ret.outcome.words tabled := by
  simp only [rootWords, hroot, Root.words]

/-- What a return holds is replaced, and what it holds more is charged. -/
theorem pays_of_outcome {a : Arena} {words : Nat} {ret : Return} {outcome : Outcome}
    (hroot : m.root = some (.return ret)) (ha : m.arena.charge words = .ok a)
    (h : outcome.words tabled' ≤ ret.outcome.words tabled + words) :
    m.Pays tabled { arena := a, root := some (.return { ret with outcome := outcome }) } tabled' := by
  refine pays_of_charge ha ?_
  rw [rootWords_of_return hroot, rootWords_of_return rfl, Nat.add_assoc]
  exact Nat.add_le_add_left h _

/-- A return is rewritten without a charge, and holds as much as before. -/
theorem pays_of_return {ret ret' : Return} (hroot : m.root = some (.return ret))
    (h : ret'.outcome.words tabled = ret.outcome.words tabled) :
    m.Pays tabled { m with root := some (.return ret') } tabled where
  toCharges := Arena.charges_of_eq rfl rfl
  covers := by
    have hwords : ({ m with root := some (.return ret') } : Message).rootWords tabled = m.rootWords tabled := by
      rw [rootWords_of_return hroot, rootWords_of_return rfl, h]
    unfold held
    rw [hwords]
    exact Nat.le_refl _

/-- Structs are added, and their words are charged. -/
theorem pays_of_arena {a : Arena} (hcharges : m.arena.Charges a)
    (h : a.structWords + m.size ≤ m.arena.structWords + a.wordsUsed) :
    m.Pays tabled { m with arena := a } tabled where
  toCharges := hcharges
  covers := by
    simp only [held, rootWords, size] at h ⊢
    omega

/-- Words are charged and nothing is done with them. -/
theorem pays_charged (hroom : m.HasRoomFor s) : m.Pays tabled (m.charged s) tabled := by
  refine pays_of_arena (Arena.charges_pay hroom.pay) ?_
  exact Nat.add_le_add_left (Nat.le_add_right _ _) _

theorem textLength_lt {reason : String} (h : reason.utf8ByteSize < 2 ^ 32) : textLength reason < 2 ^ 30 := by
  unfold textLength
  omega

theorem abortWords_eq {reason : String} (h : reason.utf8ByteSize < 2 ^ 32) :
    abortWords reason = (messageWords + exceptionWords).toNat + textLength reason :=
  congrArg ((messageWords + exceptionWords).toNat + ·) (toNat_textWords h)

/-- Words that can be counted in 32 bits fit into them. -/
theorem not_overflows (hs : s.Countable) : ¬ s.Overflows := by
  intro hover
  rcases MessageStep.overflows_iff.1 hover with ⟨type, reason, rfl, h⟩ | ⟨len, rfl, h⟩
  · have hlength := textLength_lt hs
    have hhead : (messageWords + exceptionWords).toNat = 5 := rfl
    rw [abortWords_eq hs] at h
    unfold UInt32.size at h
    omega
  · have hlen : len.toNat < 2 ^ 31 := hs
    exact Nat.not_le_of_lt hlen ((size_le_capTableWords_iff len).1 h)

/-! ## Operations that charge first -/

theorem setExceptionReason_eq_ok {reason : String} (h : m.setExceptionReason reason = (.ok (), m')) :
    ∃ ret exc a, m.root = some (.return ret) ∧ ret.outcome = .exception exc ∧
      m.arena.allocate (textWords reason) = .ok a ∧ m' = {
        arena := a,
        root := some (.return { ret with outcome := .exception { exc with reason := reason } }) } := by
  unfold setExceptionReason at h
  split at h
  · exact absurd (congrArg Prod.fst h) (by simp)
  · next a ha =>
      dsimp only at h
      split at h
      · exact absurd (congrArg Prod.fst h) (by simp)
      · next filled hput =>
          obtain ⟨ret, exc, hroot, hout, rfl⟩ := putReason_eq_ok hput
          obtain rfl := congrArg Prod.snd h
          exact ⟨ret, exc, a, hroot, hout, ha, rfl⟩

theorem initCapTable_eq_ok {len : UInt32} (h : (m.initCapTable len).value = (.ok (), m')) :
    ∃ ret payload a, m.root = some (.return ret) ∧ ret.outcome = .results payload ∧
      m.arena.charge (capTableWords len) = .ok a ∧ m' = {
        arena := a,
        root := some (.return { ret with
          outcome := .results { payload with capTable := List.replicate len.toNat none } }) } := by
  obtain ⟨a, ha⟩ := charge_of_initCapTable h
  obtain ⟨ret, payload, -, hroot, hout, -⟩ := Exports.initCapTable_ok h
  obtain rfl := congrArg Prod.snd (h.symm.trans (initCapTable_of_paid hroot hout ha))
  exact ⟨ret, payload, a, hroot, hout, ha, rfl⟩

/-! ## Steps that are carried out -/

theorem settle_eq_done {r : Except Error Message} {index : Option Nat} (h : m.settle r = (.done index, m')) :
    r = .ok m' := by
  cases r with
  | ok x => exact congrArg Except.ok (congrArg Prod.snd h)
  | error e => exact absurd (congrArg Prod.fst h) (by simp [settle])

theorem charge_eq_done {r : Except Error Unit × Message} {index : Option Nat}
    (h : charge r = (.done index, m')) : r = (.ok (), m') := by
  obtain ⟨written | _, left⟩ := r
  · exact absurd (congrArg Prod.fst h) (by simp [charge, Ending.of, Except.map])
  · obtain rfl := congrArg Prod.snd h
    rfl

theorem check_eq_done {α : Type} {r : Checked α} {finish : α → Ending (Option Nat) × Message}
    {index : Option Nat} (h : m.check r finish = (.done index, m')) : finish r.value = (.done index, m') := by
  cases hcalm : r.panicked with
  | true => exact absurd (congrArg Prod.fst ((m.check_of_panicked hcalm finish).symm.trans h)) (by simp)
  | false => exact (m.check_of_calm hcalm finish).symm.trans h

theorem pays_of_done {index : Option Nat} (hs : s.Countable) (h : m.step s = (.done index, m')) :
    m.Pays tabled m' (s.tables?.getD tabled) := by
  cases s with
  | initReturn id =>
      obtain ⟨a, ha, rfl⟩ := exists_of_map_eq_ok (settle_eq_done h)
      exact pays_of_charge ha (Nat.le_add_left _ _)
  | initAbort type reason =>
      obtain ⟨a, ha, rfl⟩ := exists_of_map_eq_ok (settle_eq_done (check_eq_done h))
      refine pays_of_charge ha ?_
      rw [abortWords_eq hs]
      exact Nat.le_add_left _ _
  | initResults =>
      obtain ⟨ret, a, hroot, ha, rfl⟩ := initResults_eq_ok (settle_eq_done h)
      exact pays_of_outcome hroot ha (Nat.le_add_left _ _)
  | initException type =>
      obtain ⟨ret, a, hroot, ha, rfl⟩ := initException_eq_ok (settle_eq_done h)
      exact pays_of_outcome hroot ha (Nat.le_add_left _ _)
  | setExceptionReason reason =>
      obtain ⟨ret, exc, a, hroot, hout, ha, rfl⟩ := setExceptionReason_eq_ok (charge_eq_done h)
      have hcharge : (textWords reason).toNat = textLength reason := toNat_textWords hs
      refine pays_of_outcome hroot ha ?_
      rw [hout, hcharge]
      simp only [Outcome.words]
      split <;> omega
  | initCapTable len =>
      obtain ⟨ret, payload, a, hroot, hout, ha, rfl⟩ := initCapTable_eq_ok (charge_eq_done (check_eq_done h))
      have hcharge : capTableWords len = tableWords len.toNat := capTableWords_eq len
      refine pays_of_outcome hroot ha ?_
      rw [hout, hcharge]
      show payloadWords.toNat + tableWords (List.replicate len.toNat none).length ≤
        payloadWords.toNat + tableShare tabled payload.capTable.length + tableWords len.toNat
      rw [List.length_replicate]
      omega
  | newStruct size =>
      simp only [step] at h
      split at h
      · next i m₁ hnew =>
          obtain ⟨a, ha, rfl⟩ := newStruct_eq_ok hnew
          obtain rfl := congrArg Prod.snd h
          exact pays_of_arena (Arena.charges_newStruct ha) (Nat.le_of_eq (Arena.structWords_newStruct ha))
      · exact absurd (congrArg Prod.fst h) (by simp)
  | addCapability cap =>
      obtain rfl := congrArg Prod.snd h
      exact pays_of_arena (Arena.charges_of_eq rfl rfl) (Nat.le_refl _)
  | edit struct change =>
      simp only [step] at h
      split at h
      · next child a ha =>
          obtain rfl := congrArg Prod.snd h
          exact pays_of_arena (Arena.charges_edit ha) (Nat.le_of_eq (Arena.structWords_edit ha))
      · exact absurd (congrArg Prod.fst h) (by simp)
  | address id release =>
      obtain ⟨ret, hroot, rfl⟩ := modifyReturn_eq_ok_iff.1 (settle_eq_done h)
      exact pays_of_return hroot rfl
  | setContent p =>
      obtain ⟨ret, payload, hroot, hout, rfl⟩ := modifyResults_eq_ok_iff.1 (settle_eq_done h)
      exact pays_of_return hroot (by rw [hout]; rfl)
  | describe table =>
      obtain ⟨ret, payload, hroot, hout, rfl⟩ := modifyResults_eq_ok_iff.1 (settle_eq_done h)
      refine pays_of_return hroot ?_
      rw [hout]
      -- a table is only replaced by one of its length
      have hlength : (if table.length = payload.capTable.length then { payload with capTable := table }
          else payload).capTable.length = payload.capTable.length := by
        split
        · next heq => exact heq
        · rfl
      simp only [Outcome.words, hlength]

/-! ## Runs -/

/-- One step. A step that fails leaves the message as it was or charges it for nothing. -/
theorem pays_step (hs : s.Countable) : m.Pays tabled (m.step s).2 (m.tabledBy tabled s) := by
  unfold tabledBy
  rcases hstep : m.step s with ⟨index | e | _, m'⟩
  · exact pays_of_done hs hstep
  · rcases step_failed_cases hstep with rfl | ⟨-, hroom, -, rfl⟩
    · exact Pays.refl _ _
    · exact pays_charged hroom
  · exact absurd (step_eq_panicked_iff.1 (congrArg Prod.fst hstep)) (not_overflows hs)

theorem pays_after {steps : List MessageStep} (hs : ∀ s ∈ steps, s.Countable) :
    m.Pays tabled (m.after steps) (m.tabledAfter tabled steps) := by
  induction steps generalizing m tabled with
  | nil => exact Pays.refl m tabled
  | cons s rest ih =>
      obtain ⟨hfirst, hrest⟩ := List.forall_mem_cons.1 hs
      exact (pays_step hfirst).trans (ih hrest)

/-- What a message was charged with in a sequence of steps. -/
structure Budgeted (limit : Option Nat) (steps : List MessageStep) : Prop where
  /-- No step is refunded. -/
  grows : ∀ before, before <+: steps → ((empty limit).after before).size ≤ ((empty limit).after steps).size
  /-- The limit is kept. -/
  fits : ∀ n, limit = some n → ((empty limit).after steps).size ≤ n
  /-- All that the message holds is paid for: its root with all that is in it, and every struct. -/
  covers : ((empty limit).after steps).held ((empty limit).tabledAfter false steps) ≤
    ((empty limit).after steps).size
  /-- No step panics. -/
  calm : ∀ before s, before ++ [s] <+: steps → (((empty limit).after before).step s).1 ≠ .panicked

/-- Every sequence of steps on a new message keeps to this, in whatever order they come and fail. -/
theorem budgeted (limit : Option Nat) {steps : List MessageStep} (hs : ∀ s ∈ steps, s.Countable) :
    Budgeted limit steps := by
  have hpays : (empty limit).Pays false _ _ := pays_after hs
  constructor
  case grows =>
    rintro before ⟨rest, rfl⟩
    have hrest : ((empty limit).after before).Pays false _ _ :=
      pays_after fun s hmem => hs s (List.mem_append_right before hmem)
    rw [after_append]
    exact hrest.more
  case fits =>
    rintro n rfl
    exact hpays.fits (fun n' h => Nat.zero_le n') n hpays.limit
  case covers =>
    have hcovers := hpays.covers
    -- a new message holds nothing and is charged with nothing
    exact Nat.le_trans hcovers (Nat.le_of_eq (Nat.zero_add _))
  case calm =>
    rintro before s ⟨rest, rfl⟩ hpanicked
    exact not_overflows (hs s (by simp)) (step_eq_panicked_iff.1 hpanicked)

/-- A call is answered with results, which are replaced by an exception and, in the end, by an abort. On the way
    a reason finds no exception to go into, and a struct finds no room. -/
def wastefulRun : List MessageStep :=
  [.initReturn 1, .initResults, .newStruct ⟨1, 1⟩, .edit 0 (.initStruct 0 ⟨2, 0⟩), .setContent (.struct 0),
    .initCapTable 1, .describe [some 0], .setExceptionReason "busy", .initException .overloaded,
    .setExceptionReason "busy", .newStruct ⟨100, 0⟩, .initAbort .failed "gone"]

theorem budgeted_wastefulRun : (∀ s ∈ wastefulRun, s.Countable) ∧ Budgeted (some 40) wastefulRun :=
  ⟨by decide +kernel, budgeted (some 40) (by decide +kernel)⟩

example : ((empty (some 40)).after wastefulRun).size = 25 ∧
    ((empty (some 40)).after wastefulRun).held false = 10 := by decide +kernel

end Message

end Callee
