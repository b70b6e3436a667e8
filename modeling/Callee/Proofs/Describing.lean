import Callee.Proofs.Addressing
import Callee.Proofs.Fitting
import Callee.Proofs.Resolution

set_option autoImplicit false

/-! # Describing capabilities

Writing out the descriptors of a message goes through its capability table slot by slot and hands one
reference to the peer for each slot that is filled. `Described` says all that this changes: the
descriptors, the counts of the exports that they name, and nothing else. There is no partial outcome.
What can fail is tried before the first reference is handed out, so a failure leaves the exports and the
results as they were (`Undescribed`), and it comes about exactly if there are no results or there is no
room for the table. After that the only thing left to go wrong is that a count or an id outgrows its 32
bits, and then the program panics (`Exports.writeDescriptors_describes`). -/

namespace Callee

/-! ## Room for the descriptors -/

theorem capTableWords_eq (len : UInt32) : capTableWords len = 1 + 2 * len.toNat :=
  congrArg (1 + ·) (Nat.mul_comm _ _)

/-- From so many descriptors on the words of a table do not fit into 32 bits. -/
theorem size_le_capTableWords_iff (len : UInt32) : UInt32.size ≤ capTableWords len ↔ 2 ^ 31 ≤ len.toNat := by
  rw [capTableWords_eq]
  unfold UInt32.size
  omega

namespace Message

/-- There is room for a descriptor for each slot of the capability table. -/
def HasTableRoom (m : Message) : Prop :=
  ∀ limit, m.arena.wordLimit = some limit → m.arena.wordsUsed + (1 + 2 * m.arena.caps.length) ≤ limit

/-- The capability table can be described: there is room for the descriptors, and there are results to put
    them into. -/
def Describable (m : Message) : Prop :=
  m.HasTableRoom ∧ ∃ payload, m.getResults = .ok payload

theorem panicked_initCapTable_iff {m : Message} {len : UInt32} :
    (m.initCapTable len).panicked = true ↔ 2 ^ 31 ≤ len.toNat :=
  decide_eq_true_iff.trans (size_le_capTableWords_iff len)

theorem toNat_length {m : Message} (h : m.arena.caps.length < 2 ^ 31) :
    m.arena.caps.length.toUInt32.toNat = m.arena.caps.length :=
  UInt32.toNat_ofNat_of_lt' (Nat.lt_trans h (by decide))

/-- With so few slots the words of a table for them fit. -/
theorem panicked_initCapTable {m : Message} (h : m.arena.caps.length < 2 ^ 31) :
    (m.initCapTable m.arena.caps.length.toUInt32).panicked = false := by
  refine Bool.eq_false_iff.2 fun hpanic => Nat.not_le_of_lt h ?_
  rw [← toNat_length h]
  exact panicked_initCapTable_iff.1 hpanic

theorem hasTableRoom_iff {m : Message} (h : m.arena.caps.length < 2 ^ 31) :
    m.HasTableRoom ↔ ∃ a, m.arena.charge (capTableWords m.arena.caps.length.toUInt32) = .ok a := by
  simp only [HasTableRoom, Arena.charge_eq_ok_iff, capTableWords_eq, toNat_length h, exists_and_left, exists_eq,
    and_true]

theorem error_of_getResults {m : Message} {e : Error} (h : m.getResults = .error e) :
    e = .notAReturn ∨ e = .notResults := by
  unfold getResults getReturn at h
  split at h
  · next e' hret =>
      split at hret
      · exact absurd hret (by simp)
      · exact Or.inl (by rw [← Except.error.inj h, ← Except.error.inj hret])
  · split at h
    · exact absurd h (by simp)
    · exact Or.inr (Except.error.inj h).symm

theorem modifyResults_eq_error_iff {m : Message} {f : Payload → Payload} {e : Error} :
    m.modifyResults f = .error e ↔ m.getResults = .error e := by
  cases hres : m.getResults with
  | error e' => simp [modifyResults, hres]
  | ok payload =>
      obtain ⟨m', hchanged⟩ := modifyResults_of_getResults hres f
      simp [hchanged]

/-- Room for descriptors is missing, or the results are. Either way the results stay as they were, and at
    most words were charged. -/
theorem initCapTable_failed {m m' : Message} {len : UInt32} {e : Error}
    (h : (m.initCapTable len).value = (.error e, m')) :
    m'.root = m.root ∧ (∃ words, m'.arena = { m.arena with wordsUsed := words }) ∧
      ((∃ limit, m.arena.wordLimit = some limit ∧ e = .sizeLimit limit ∧
          ∀ a, m.arena.charge (capTableWords len) ≠ .ok a) ∨
        m.getResults = .error e) := by
  unfold initCapTable at h
  dsimp only at h
  split at h
  · next e' hcharge =>
      obtain ⟨rfl, rfl⟩ : e' = e ∧ m = m' := by simpa using h
      obtain ⟨limit, hlimit, -, rfl⟩ := (m.arena.charge_eq_error_iff _ _).1 hcharge
      exact ⟨rfl, ⟨_, rfl⟩, Or.inl ⟨limit, hlimit, rfl, by simp [hcharge]⟩⟩
  · next a hcharge =>
      obtain ⟨-, rfl⟩ := (Arena.charge_eq_ok_iff _ _ _).1 hcharge
      split at h
      · next e' hfill =>
          obtain ⟨rfl, rfl⟩ : e' = e ∧ _ = m' := by simpa using h
          -- what the results are does not depend on what was charged
          have hres := modifyResults_eq_error_iff.1 hfill
          exact ⟨rfl, ⟨_, rfl⟩, Or.inr hres⟩
      · exact absurd (congrArg Prod.fst h) (by simp)

theorem charge_of_initCapTable {m m' : Message} {len : UInt32}
    (h : (m.initCapTable len).value = (.ok (), m')) : ∃ a, m.arena.charge (capTableWords len) = .ok a := by
  unfold initCapTable at h
  dsimp only at h
  split at h
  · exact absurd (congrArg Prod.fst h) (by simp)
  · next a hcharge => exact ⟨a, hcharge⟩

end Message

namespace Exports

/-! ## What is not counted up -/

theorem get?_add_of_ne {x : Exports} (hx : x.WF) {cap : Capability} {n : ExportId}
    (hn : n ≠ (x.add cap).value.1) : (x.add cap).value.2.table.get? n = x.table.get? n := by
  unfold add at hn ⊢
  split at hn
  · next id e hfind =>
      have he := ((find?_eq_some_iff hx cap id e).1 hfind).1
      exact (Slots.get?_set he _ n).trans (if_neg hn)
  · next hfind =>
      exact (Slots.get?_push hx.slots _ n).trans (if_neg hn)

/-- An export that no descriptor names is the same as before. -/
theorem get?_describe_of_not_mem {x : Exports} (hx : x.WF) {caps : List (Option Capability)} {n : ExportId}
    (hn : n ∉ (x.describe caps).value.1.filterMap id) :
    (x.describe caps).value.2.table.get? n = x.table.get? n := by
  induction caps generalizing x with
  | nil => rfl
  | cons slot rest ih =>
      cases slot with
      | none => exact ih hx hn
      | some cap =>
          obtain ⟨hfirst, hrest⟩ : n ≠ (x.add cap).value.1 ∧
              n ∉ ((x.add cap).value.2.describe rest).value.1.filterMap id := by
            simpa only [value_describe_some, List.filterMap_cons_some (f := id) rfl, List.mem_cons,
              not_or] using hn
          exact (ih (add_spec hx cap).1.wf hrest).trans (get?_add_of_ne hx hfirst)

/-! ## The descriptors -/

theorem find?_of_names {x : Exports} (hx : x.WF) {n : ExportId} {cap : Capability} (h : x.Names n cap) :
    ∃ exp, x.find? cap = some (n, exp) ∧ exp.cap.identity = cap.identity := by
  obtain ⟨exp, hexp, hid⟩ := h
  exact ⟨exp, (find?_eq_some_iff hx cap n exp).2 ⟨hexp, hid⟩, hid⟩

theorem descriptor_of_empty {x : Exports} {caps : List (Option Capability)} {ds : List Descriptor}
    (h : List.Forall₂ x.Describes caps ds) {i : Nat} (hi : caps[i]? = some none) : ds[i]? = some none := by
  obtain ⟨hlt, -⟩ := List.getElem?_eq_some_iff.1 hi
  have hlt' : i < ds.length := h.length_eq ▸ hlt
  have hd : ds[i]? = some ds[i] := List.getElem?_eq_getElem hlt'
  cases hslot : ds[i] with
  | none => rw [hd, hslot]
  | some n =>
      obtain ⟨cap, hcap, -⟩ := (slot_of_described h i).2 n (hd.trans (congrArg some hslot))
      exact absurd (hi.symm.trans hcap) (by simp)

/-- All that describing the capability table of a message changes: the descriptors `ds` are written into
    its results, and the references `ids` are handed out. -/
structure Described (x : Exports) (m : Message) (ds : List Descriptor) (ids : List ExportId) (m' : Message)
    (x' : Exports) : Prop where
  /-- The results have these descriptors and are otherwise as they were, and so is all that is stored. -/
  written : ∃ ret payload words, m.root = some (.return ret) ∧ ret.outcome = .results payload ∧
    m' = { arena := { m.arena with wordsUsed := words },
           root := some (.return { ret with outcome := .results { payload with capTable := ds } }) }
  /-- There is one descriptor for each slot, in order. -/
  length : ds.length = m.arena.caps.length
  empty : ∀ i : Nat, m.arena.caps[i]? = some none → ds[i]? = some none
  /-- A slot that is filled is described by the one export of its identity. -/
  filled : ∀ (i : Nat) cap, m.arena.caps[i]? = some (some cap) → ∃ n exp, ds[i]? = some (some n) ∧
    x'.find? cap = some (n, exp) ∧ exp.cap.identity = cap.identity
  /-- Two of them have one export together exactly if their capabilities have one identity. -/
  apart : ∀ (i j : Nat) cap cap', m.arena.caps[i]? = some (some cap) → m.arena.caps[j]? = some (some cap') →
    (ds[i]? = ds[j]? ↔ cap.identity = cap'.identity)
  /-- The references that were handed out are those in the descriptors, in order and as often as they stand
      there. -/
  handed : ids = ds.filterMap id
  counted : ∀ n, x'.refs n = x.refs n + ids.count n
  /-- What was counted up fits into 32 bits, and so do the ids that are new. -/
  fits : ∀ n ∈ ids, x'.refs n < UInt32.size ∧ (x.refs n = 0 → n + 1 < UInt32.size)
  /-- Every export keeps its capability, and one that no descriptor names is as it was. -/
  kept : x.KeptIn x'
  untouched : ∀ n, n ∉ ids → x'.table.get? n = x.table.get? n
  wf : x'.WF

/-- A failure to describe the capability table: the exports are as they were, and so are the results and all
    that is stored. -/
structure Undescribed (x : Exports) (m : Message) (e : Error) (m' : Message) (x' : Exports) : Prop where
  exports : x' = x
  root : m'.root = m.root
  arena : ∃ words, m'.arena = { m.arena with wordsUsed := words }
  /-- There is no room for the table, or there are no results. -/
  cause : (∃ limit, m.arena.wordLimit = some limit ∧ e = .sizeLimit limit ∧ ¬ m.HasTableRoom) ∨
    (e = .notAReturn ∨ e = .notResults) ∧ ∀ payload, m.getResults ≠ .ok payload

/-- The references that describing a message hands out, however far the counts get. -/
def handedOut (x : Exports) (m : Message) : List ExportId :=
  (x.describe m.arena.caps).value.1.filterMap id

theorem described_describe {x : Exports} (hx : x.WF) {m : Message} {ret : Return} {payload : Payload}
    {words : Nat} (hroot : m.root = some (.return ret)) (hout : ret.outcome = .results payload)
    (hfits : ¬ x.Overflows (x.handedOut m)) :
    x.Described m (x.describe m.arena.caps).value.1 (x.handedOut m)
      { arena := { m.arena with wordsUsed := words },
        root := some (.return { ret with
          outcome := .results { payload with capTable := (x.describe m.arena.caps).value.1 } }) }
      (x.describe m.arena.caps).value.2 := by
  obtain ⟨hadded, hdescribed⟩ := describe_spec hx m.arena.caps
  refine ⟨⟨ret, payload, words, hroot, hout, rfl⟩, hdescribed.length_eq.symm, fun i hi => ?_,
    fun i cap hi => ?_, fun i j cap cap' hi hj => ?_, rfl, hadded.refs, fun n hn => ?_, hadded.kept,
    fun n hn => get?_describe_of_not_mem hx hn, hadded.wf⟩
  · exact descriptor_of_empty hdescribed hi
  · obtain ⟨n, hn, hnames⟩ := (slot_of_described hdescribed i).1 cap hi
    obtain ⟨exp, hfind, hid⟩ := find?_of_names hadded.wf hnames
    exact ⟨n, exp, hn, hfind, hid⟩
  · obtain ⟨n, hn, hnames⟩ := (slot_of_described hdescribed i).1 cap hi
    obtain ⟨n', hn', hnames'⟩ := (slot_of_described hdescribed j).1 cap' hj
    rw [hn, hn', Option.some.injEq, Option.some.injEq]
    exact names_eq_iff hadded.wf hnames hnames'
  · rw [hadded.refs]
    refine ⟨Nat.lt_of_not_le fun hmany => hfits ⟨n, hn, Or.inl hmany⟩, fun hnew => ?_⟩
    exact Nat.lt_of_not_le fun hlast => hfits ⟨n, hn, Or.inr ⟨hnew, hlast⟩⟩

theorem undescribed_of_error {x x' : Exports} {m m' : Message} {e : Error}
    (hfew : m.arena.caps.length < 2 ^ 31) (h : (x.writeDescriptors m).value = (.error e, m', x')) :
    x.Undescribed m e m' x' := by
  rcases x.writeDescriptors_cases m with ⟨e', herr, heq⟩ | ⟨ret, payload, words, -, -, heq⟩
  · rw [heq] at h
    obtain ⟨rfl, rfl, rfl⟩ : e' = e ∧ _ = m' ∧ x = x' := by simpa using h
    obtain ⟨hroot, harena, hcause⟩ := Message.initCapTable_failed (Prod.ext herr rfl)
    refine ⟨rfl, hroot, harena, ?_⟩
    rcases hcause with ⟨limit, hlimit, rfl, hroom⟩ | hres
    · exact Or.inl ⟨limit, hlimit, rfl, fun hfits =>
        ((Message.hasTableRoom_iff hfew).1 hfits).elim hroom⟩
    · exact Or.inr ⟨Message.error_of_getResults hres, by simp [hres]⟩
  · rw [heq] at h
    exact absurd (congrArg Prod.fst h) (by simp)

/-! ## What comes of a message -/

theorem describable_of_initCapTable {m m' : Message} (hfew : m.arena.caps.length < 2 ^ 31)
    (h : (m.initCapTable m.arena.caps.length.toUInt32).value = (.ok (), m')) : m.Describable := by
  obtain ⟨ret, payload, words, hroot, hout, -⟩ := initCapTable_ok h
  exact ⟨(Message.hasTableRoom_iff hfew).2 (Message.charge_of_initCapTable h), payload,
    Message.getResults_eq_ok_iff.2 ⟨ret, hroot, hout⟩⟩

theorem not_describable_of_error {x x' : Exports} {m m' : Message} {e : Error}
    (hfew : m.arena.caps.length < 2 ^ 31) (h : (x.writeDescriptors m).value = (.error e, m', x')) :
    ¬ m.Describable := by
  rintro ⟨hroom, payload, hres⟩
  rcases (undescribed_of_error hfew h).cause with ⟨_, _, _, hno⟩ | ⟨-, hno⟩
  · exact hno hroom
  · exact hno payload hres

theorem describable_of_ok {x x' : Exports} {m m' : Message} {ids : List ExportId}
    (hfew : m.arena.caps.length < 2 ^ 31) (h : (x.writeDescriptors m).value = (.ok ids, m', x')) :
    m.Describable := by
  rw [value_writeDescriptors] at h
  split at h
  · exact absurd (congrArg Prod.fst h) (by simp)
  · next hinit => exact describable_of_initCapTable hfew hinit

/-- It panics exactly if it gets as far as counting, and a count does not fit. -/
theorem panicked_writeDescriptors_iff {x : Exports} (hx : x.WF) {m : Message}
    (hfew : m.arena.caps.length < 2 ^ 31) :
    (x.writeDescriptors m).panicked = true ↔ m.Describable ∧ x.Overflows (x.handedOut m) := by
  rw [panicked_writeDescriptors, Message.panicked_initCapTable hfew, Bool.false_or]
  split
  · next e m₁ hinit =>
      have herror : (x.writeDescriptors m).value = (.error e, m₁, x) := by
        rw [value_writeDescriptors, hinit]
      exact iff_of_false Bool.false_ne_true fun h => not_describable_of_error hfew herror h.1
  · next m₁ hinit =>
      have hdescribable := describable_of_initCapTable hfew hinit
      obtain ⟨ret, payload, words, -, -, rfl⟩ := initCapTable_ok hinit
      exact (panicked_describe_iff hx m.arena.caps).trans (and_iff_right hdescribable).symm

theorem described_of_ok {x x' : Exports} (hx : x.WF) {m m' : Message} {ids : List ExportId}
    (hfew : m.arena.caps.length < 2 ^ 31)
    (h : (x.writeDescriptors m).outcome? = some (.ok ids, m', x')) :
    ¬ x.Overflows (x.handedOut m) ∧ ∃ ds, x.Described m ds ids m' x' := by
  obtain ⟨hcalm, hvalue⟩ := Checked.outcome?_eq_some_iff.1 h
  have hfits : ¬ x.Overflows (x.handedOut m) := fun hover =>
    absurd ((panicked_writeDescriptors_iff hx hfew).2 ⟨describable_of_ok hfew hvalue, hover⟩) (by simp [hcalm])
  refine ⟨hfits, ?_⟩
  rcases x.writeDescriptors_cases m with ⟨e, -, heq⟩ | ⟨ret, payload, words, hroot, hout, heq⟩
  · exact absurd (congrArg Prod.fst (hvalue.symm.trans heq)) (by simp)
  · obtain ⟨rfl, rfl, rfl⟩ : x.handedOut m = ids ∧ _ = m' ∧ _ = x' := by
      simpa [handedOut] using heq.symm.trans hvalue
    exact ⟨_, described_describe hx hroot hout hfits⟩

/-- Where there is room for the table and there are results, a program that goes on has succeeded. -/
theorem exists_ok_of_calm {x : Exports} {m : Message} (hfew : m.arena.caps.length < 2 ^ 31)
    (hdescribable : m.Describable) (hcalm : (x.writeDescriptors m).panicked = false) :
    ∃ ids m' x', (x.writeDescriptors m).outcome? = some (.ok ids, m', x') := by
  rcases hvalue : (x.writeDescriptors m).value with ⟨e | ids, m', x'⟩
  · exact absurd hdescribable (not_describable_of_error hfew hvalue)
  · exact ⟨ids, m', x', Checked.outcome?_eq_some_iff.2 ⟨hcalm, hvalue⟩⟩

/-- What describing the capability table of a message comes to: everything or nothing. -/
structure DescribesAllOrNothing (x : Exports) (m : Message) : Prop where
  /-- It succeeds exactly if there is room for the table, there are results, and every count fits. -/
  succeeds : (∃ ids m' x', (x.writeDescriptors m).outcome? = some (.ok ids, m', x')) ↔
    m.Describable ∧ ¬ x.Overflows (x.handedOut m)
  /-- If a count does not fit, the program panics. -/
  panics : (x.writeDescriptors m).outcome? = none ↔ m.Describable ∧ x.Overflows (x.handedOut m)
  success : ∀ ids m' x', (x.writeDescriptors m).outcome? = some (.ok ids, m', x') →
    ∃ ds, x.Described m ds ids m' x'
  failure : ∀ e m' x', (x.writeDescriptors m).outcome? = some (.error e, m', x') → x.Undescribed m e m' x'

theorem writeDescriptors_describes {x : Exports} (hx : x.WF) {m : Message}
    (hfew : m.arena.caps.length < 2 ^ 31) : x.DescribesAllOrNothing m := by
  have hpanics := panicked_writeDescriptors_iff hx hfew
  constructor
  case succeeds =>
    constructor
    · rintro ⟨ids, m', x', h⟩
      exact ⟨describable_of_ok hfew (Checked.outcome?_eq_some_iff.1 h).2, (described_of_ok hx hfew h).1⟩
    · rintro ⟨hdescribable, hfits⟩
      have hcalm : (x.writeDescriptors m).panicked = false :=
        Bool.eq_false_iff.2 fun hpanic => hfits (hpanics.1 hpanic).2
      exact exists_ok_of_calm hfew hdescribable hcalm
  case panics => exact Checked.outcome?_eq_none_iff.trans hpanics
  case success =>
    intro ids m' x' h
    exact (described_of_ok hx hfew h).2
  case failure =>
    intro e m' x' h
    exact undescribed_of_error hfew (Checked.outcome?_eq_some_iff.1 h).2

/-- Exports with an id that is free again: the second and third of three that were entered are left. -/
def recycledExports : Exports :=
  ((({} : Exports).describe [some ⟨"first", 5⟩, some ⟨"second", 6⟩, some ⟨"third", 7⟩]).value.2.release
    [0]).exports

/-- The same with as many references to the last one as a count can hold. -/
def crowdedExports : Exports :=
  { recycledExports with table := recycledExports.table.set 2 { refs := UInt32.size - 1, cap := ⟨"third", 7⟩ } }

/-- A return with one empty slot among four, under a limit. -/
def fourSlots (limit : Nat) : Message where
  arena := {
    wordsUsed := 7
    wordLimit := some limit
    caps := [some ⟨"third", 7⟩, none, some ⟨"fresh", 8⟩, some ⟨"third again", 7⟩] }
  root := some (.return { answerId := 1, outcome := .results {} })

/-- The capability that is exported already is counted up twice and the new one gets the id that is free, with
    one word less nothing happens at all, and where the count is full already the program panics. -/
theorem writeDescriptors_fourSlots :
    (recycledExports.writeDescriptors (fourSlots 16)).outcome?.map (·.1) = some (.ok [2, 0, 2]) ∧
      (recycledExports.writeDescriptors (fourSlots 15)).outcome?.map (·.1) = some (.error (.sizeLimit 15)) ∧
      (crowdedExports.writeDescriptors (fourSlots 16)).outcome? = none ∧
      recycledExports.DescribesAllOrNothing (fourSlots 16) ∧
      recycledExports.DescribesAllOrNothing (fourSlots 15) ∧
      crowdedExports.DescribesAllOrNothing (fourSlots 16) := by
  have hx : recycledExports.WF := wf_release (describe_spec wf_empty _).1.wf [0]
  have hthird : recycledExports.table.get? 2 = some { refs := 1, cap := ⟨"third", 7⟩ } := by decide +kernel
  have hfull : crowdedExports.WF := wf_recount hx hthird (by decide)
  exact ⟨by decide +kernel, by decide +kernel, by decide +kernel, writeDescriptors_describes hx (by decide),
    writeDescriptors_describes hx (by decide), writeDescriptors_describes hfull (by decide)⟩

end Exports

end Callee
