import Callee.Proofs.Budget

set_option autoImplicit false

/-! # What was stored where

Of every step that is carried out it can be noted down what it has stored in a message: a `Mark` for each struct,
each capability, each word and each field. From these marks alone, without the arena, follows what is to be read at
any place: what was stored there last. An arena `Reflects` its marks if that is what it holds, and every step on a
message keeps it so (`Message.reflects_step`). -/

namespace Callee

/-- What was stored in a message. -/
inductive Mark where
  /-- A struct was allocated. -/
  | struct (size : ObjectSize)
  /-- A capability was added to the table. -/
  | slot (cap : Capability)
  /-- A word was written. -/
  | word (struct : Nat) (offset : UInt16) (value : UInt64)
  /-- A field was pointed to something. -/
  | field (struct : Nat) (index : UInt16) (p : Pointer)
  deriving DecidableEq

namespace Mark

/-! ## Reading marks -/

/-- The size of the struct that was allocated. -/
def size? : Mark → Option ObjectSize
  | struct size => some size
  | _ => none

/-- The capability that was added. -/
def capability? : Mark → Option Capability
  | slot cap => some cap
  | _ => none

/-- The value that was stored in a given word. -/
def word? (mark : Mark) (s : Nat) (o : UInt16) : Option UInt64 :=
  match mark with
  | word t p value => if t = s ∧ p = o then some value else none
  | _ => none

/-- The pointer that was stored in a given field. -/
def field? (mark : Mark) (s : Nat) (i : UInt16) : Option Pointer :=
  match mark with
  | field t k p => if t = s ∧ k = i then some p else none
  | _ => none

/-- The sizes of all structs, in the order in which they were allocated. -/
def sizes (j : List Mark) : List ObjectSize := j.filterMap size?

/-- All capabilities, in the order in which they were added. -/
def capabilities (j : List Mark) : List Capability := j.filterMap capability?

/-- The value that was stored last in a word, if any was. -/
def lastWord (j : List Mark) (s : Nat) (o : UInt16) : Option UInt64 := (j.filterMap (·.word? s o)).getLast?

/-- The pointer that was stored last in a field, if any was. -/
def lastField (j : List Mark) (s : Nat) (i : UInt16) : Option Pointer := (j.filterMap (·.field? s i)).getLast?

theorem sizes_concat (j : List Mark) (mark : Mark) : sizes (j ++ [mark]) = sizes j ++ mark.size?.toList := by
  cases h : mark.size? <;> simp [sizes, h]

theorem capabilities_concat (j : List Mark) (mark : Mark) :
    capabilities (j ++ [mark]) = capabilities j ++ mark.capability?.toList := by
  cases h : mark.capability? <;> simp [capabilities, h]

theorem lastWord_append (j k : List Mark) (s : Nat) (o : UInt16) :
    lastWord (j ++ k) s o = (lastWord k s o).or (lastWord j s o) := by
  simp only [lastWord, List.filterMap_append, List.getLast?_append]

theorem lastField_append (j k : List Mark) (s : Nat) (i : UInt16) :
    lastField (j ++ k) s i = (lastField k s i).or (lastField j s i) := by
  simp only [lastField, List.filterMap_append, List.getLast?_append]

theorem sizes_of_other (j : List Mark) {mark : Mark} (h : mark.size? = none) : sizes (j ++ [mark]) = sizes j := by
  simp [sizes, h]

theorem capabilities_of_other (j : List Mark) {mark : Mark} (h : mark.capability? = none) :
    capabilities (j ++ [mark]) = capabilities j := by
  simp [capabilities, h]

/-- A mark of another sort changes nothing about what was stored last in a word. -/
theorem lastWord_of_other (j : List Mark) {mark : Mark} (h : ∀ s o, mark.word? s o = none) :
    lastWord (j ++ [mark]) = lastWord j := by
  funext s o
  simp [lastWord, h]

theorem lastField_of_other (j : List Mark) {mark : Mark} (h : ∀ s i, mark.field? s i = none) :
    lastField (j ++ [mark]) = lastField j := by
  funext s i
  simp [lastField, h]

theorem lastWord_word (j : List Mark) (s : Nat) (o : UInt16) (value : UInt64) (t : Nat) (p : UInt16) :
    lastWord (j ++ [.word s o value]) t p = if s = t ∧ o = p then some value else lastWord j t p := by
  rw [lastWord_append]
  by_cases h : s = t ∧ o = p <;> simp [lastWord, word?, h]

theorem lastField_field (j : List Mark) (s : Nat) (i : UInt16) (p : Pointer) (t : Nat) (k : UInt16) :
    lastField (j ++ [.field s i p]) t k = if s = t ∧ i = k then some p else lastField j t k := by
  rw [lastField_append]
  by_cases h : s = t ∧ i = k <;> simp [lastField, field?, h]

/-! ## Leaving marks -/

/-- What a step on a message leaves if it is carried out. New structs and capabilities come behind those that there
    were, and a field is pointed to the one that came with it. -/
def ofStep (j : List Mark) : MessageStep → List Mark
  | .newStruct size => [.struct size]
  | .addCapability cap => [.slot cap]
  | .edit s (.setWord o value) => [.word s o value]
  | .edit s (.setCapability i cap) => [.slot cap, .field s i (.capability (capabilities j).length)]
  | .edit s (.initStruct i size) => [.struct size, .field s i (.struct (sizes j).length)]
  | _ => []

end Mark

/-! ## Rows -/

/-- Rows of words or of pointers, one for each struct: how long they are, and what stands in them. Where nothing was
    stored last, or where no place is, stands `d`. -/
structure Rows {α : Type} (d : α) (rows : List (List α)) (counts : List Nat)
    (last : Nat → UInt16 → Option α) : Prop where
  lengths : rows.map List.length = counts
  entry : ∀ s i, (rows[s]?.getD []).getD i.toNat d = (last s i).getD d
  inside : ∀ s i v, last s i = some v → i.toNat < counts[s]?.getD 0

namespace Rows

variable {α : Type} {d : α} {rows : List (List α)} {counts : List Nat} {last last' : Nat → UInt16 → Option α}

/-- A place in a row stays one when more rows are added. -/
theorem lt_count_append {s i : Nat} (h : i < counts[s]?.getD 0) (more : List Nat) :
    i < (counts ++ more)[s]?.getD 0 := by
  have hs : s < counts.length := by
    by_contra hout
    rw [List.getElem?_eq_none (Nat.le_of_not_lt hout)] at h
    exact absurd h (Nat.not_lt_zero _)
  rwa [List.getElem?_append_left hs]

/-- A row of nothing is added. -/
theorem grow (h : Rows d rows counts last) (n : Nat) :
    Rows d (rows ++ [List.replicate n d]) (counts ++ [n]) last where
  lengths := by simp [h.lengths]
  entry s i := by
    rw [← h.entry]
    rcases Nat.lt_trichotomy s rows.length with hs | hs | hs
    · rw [List.getElem?_append_left hs]
    · subst hs
      by_cases hi : i.toNat < n <;> simp [hi]
    · rw [List.getElem?_eq_none (by simp; omega), List.getElem?_eq_none (by omega)]
  inside s i v hv := lt_count_append (h.inside s i v hv) [n]

/-- Something is stored at a place of a row. -/
theorem store (h : Rows d rows counts last) {s : Nat} {i : UInt16} {v : α} (hin : i.toNat < counts[s]?.getD 0)
    (hlast : ∀ t k, last' t k = if s = t ∧ i = k then some v else last t k) :
    Rows d (rows.modify s fun row => row.set i.toNat v) counts last' where
  lengths := by
    rw [map_modify_of_eq (fun row => List.length_set), h.lengths]
  entry t k := by
    rw [hlast, List.getElem?_modify]
    -- the place that is written, another one in the same row, or one in another row
    by_cases hs : s = t
    · subst hs
      have hrow : i.toNat < (rows[s]?.getD []).length := by
        rw [← h.lengths, List.getElem?_map] at hin
        cases hr : rows[s]? <;> simp_all
      cases hr : rows[s]? with
      | none => simp [hr] at hrow
      | some row =>
          simp only [hr, Option.getD_some] at hrow
          by_cases hi : i = k
          · subst hi
            simp [hrow]
          · have hne : i.toNat ≠ k.toNat := fun heq => hi (UInt16.toNat_inj.1 heq)
            have hold := h.entry s k
            simp only [hr, Option.getD_some] at hold
            simp [hi, List.getElem?_set_ne hne, ← hold]
    · have hold := h.entry t k
      simp only [hs, false_and, if_false, ← hold]
      cases rows[t]? <;> simp
  inside t k w hw := by
    rw [hlast] at hw
    split at hw
    · next hsame => exact hsame.1 ▸ hsame.2 ▸ hin
    · exact h.inside t k w hw

/-- Nothing was ever stored outside a row. -/
theorem last_eq_none (h : Rows d rows counts last) {s n : Nat} (hn : counts[s]? = some n) {i : UInt16}
    (hout : n ≤ i.toNat) : last s i = none := by
  by_contra hsome
  obtain ⟨v, hv⟩ := Option.ne_none_iff_exists'.1 hsome
  have hin := h.inside s i v hv
  rw [hn] at hin
  exact absurd hin (Nat.not_lt_of_le hout)

end Rows

/-! ## Arenas and their marks -/

namespace Arena

variable {a b : Arena} {j : List Mark}

theorem word_eq (a : Arena) (s : Nat) (o : UInt16) :
    a.word s o = ((a.structs.map StructBody.data)[s]?.getD []).getD o.toNat 0 := by
  unfold word
  rw [List.getElem?_map]
  cases a.structs[s]? <;> simp

theorem wordCount_eq (a : Arena) (s : Nat) :
    a.wordCount s = ((a.structs.map StructBody.data).map List.length)[s]?.getD 0 := by
  unfold wordCount
  rw [List.getElem?_map, List.getElem?_map]
  cases a.structs[s]? <;> rfl

theorem fieldCount_eq (a : Arena) (s : Nat) :
    a.fieldCount s = ((a.structs.map StructBody.pointers).map List.length)[s]?.getD 0 := by
  unfold fieldCount
  rw [List.getElem?_map, List.getElem?_map]
  cases a.structs[s]? <;> rfl

/-- An arena holds what its marks say was stored in it. -/
structure Reflects (a : Arena) (j : List Mark) : Prop where
  words : Rows 0 (a.structs.map StructBody.data) ((Mark.sizes j).map fun size => size.data.toNat) (Mark.lastWord j)
  fields : Rows .null (a.structs.map StructBody.pointers) ((Mark.sizes j).map fun size => size.pointers.toNat)
    (Mark.lastField j)
  caps : a.caps = (Mark.capabilities j).map some

theorem reflects_empty (wordLimit : Option Nat) : ({ wordLimit := wordLimit } : Arena).Reflects [] :=
  ⟨⟨rfl, fun _ _ => rfl, fun _ _ _ h => absurd h (by simp [Mark.lastWord])⟩,
    ⟨rfl, fun _ _ => rfl, fun _ _ _ h => absurd h (by simp [Mark.lastField])⟩, rfl⟩

namespace Reflects

/-- Words that are charged leave no marks. -/
theorem of_eq (h : a.Reflects j) (hstructs : b.structs = a.structs) (hcaps : b.caps = a.caps) : b.Reflects j :=
  ⟨hstructs ▸ h.words, hstructs ▸ h.fields, hcaps ▸ h.caps⟩

/-! ### What can be read off the marks -/

theorem length_structs (h : a.Reflects j) : a.structs.length = (Mark.sizes j).length := by
  simpa using congrArg List.length h.words.lengths

theorem length_caps (h : a.Reflects j) : a.caps.length = (Mark.capabilities j).length := by
  rw [h.caps, List.length_map]

theorem word_eq (h : a.Reflects j) (s : Nat) (o : UInt16) : a.word s o = (Mark.lastWord j s o).getD 0 :=
  (a.word_eq s o).trans (h.words.entry s o)

theorem field_eq (h : a.Reflects j) (s : Nat) (i : UInt16) : a.field s i = (Mark.lastField j s i).getD .null :=
  (a.field_eq s i).trans (h.fields.entry s i)

theorem wordCount_eq (h : a.Reflects j) (s : Nat) :
    a.wordCount s = ((Mark.sizes j).map fun size => size.data.toNat)[s]?.getD 0 := by
  rw [a.wordCount_eq, h.words.lengths]

theorem fieldCount_eq (h : a.Reflects j) (s : Nat) :
    a.fieldCount s = ((Mark.sizes j).map fun size => size.pointers.toNat)[s]?.getD 0 := by
  rw [a.fieldCount_eq, h.fields.lengths]

/-! ### What leaves marks -/

theorem newStruct (h : a.Reflects j) {size : ObjectSize} {index : Nat} (hnew : a.newStruct size = .ok (index, b)) :
    b.Reflects (j ++ [.struct size]) := by
  obtain ⟨d, ha, -, rfl⟩ := newStruct_eq_ok hnew
  constructor
  case words =>
    rw [Mark.sizes_concat, Mark.lastWord_of_other j fun _ _ => rfl, List.map_append, List.map_append]
    exact h.words.grow size.data.toNat
  case fields =>
    rw [Mark.sizes_concat, Mark.lastField_of_other j fun _ _ => rfl, List.map_append, List.map_append]
    exact h.fields.grow size.pointers.toNat
  case caps =>
    have hcaps : d.caps = a.caps := caps_of_charge ha
    rw [Mark.capabilities_of_other j rfl]
    exact hcaps.trans h.caps

theorem addCapability (h : a.Reflects j) (cap : Capability) :
    (a.addCapability cap).2.Reflects (j ++ [.slot cap]) := by
  constructor
  case words =>
    rw [Mark.sizes_of_other j rfl, Mark.lastWord_of_other j fun _ _ => rfl]
    exact h.words
  case fields =>
    rw [Mark.sizes_of_other j rfl, Mark.lastField_of_other j fun _ _ => rfl]
    exact h.fields
  case caps =>
    rw [Mark.capabilities_concat, List.map_append, ← h.caps]
    rfl

theorem setWord (h : a.Reflects j) {s : Nat} {o : UInt16} {value : UInt64} (hset : a.setWord s o value = .ok b) :
    b.Reflects (j ++ [.word s o value]) := by
  have hin : o.toNat < a.wordCount s := by
    unfold Arena.setWord at hset
    split at hset
    · assumption
    · exact absurd hset (by simp)
  obtain rfl := setWord_eq_ok hset
  have hsizes : Mark.sizes (j ++ [.word s o value]) = Mark.sizes j := Mark.sizes_of_other j rfl
  constructor
  case words =>
    have hrows : (a.structs.modify s fun body => { body with data := body.data.set o.toNat value }).map
        StructBody.data = (a.structs.map StructBody.data).modify s fun row => row.set o.toNat value := by
      apply map_modify
      exact fun _ => rfl
    have hstored := h.words.store (h.wordCount_eq s ▸ hin) (Mark.lastWord_word j s o value)
    rw [← hrows, ← hsizes] at hstored
    exact hstored
  case fields =>
    have hrows : (a.structs.modify s fun body => { body with data := body.data.set o.toNat value }).map
        StructBody.pointers = a.structs.map StructBody.pointers := by
      apply map_modify_of_eq
      exact fun _ => rfl
    have hkept := h.fields
    rw [← hrows] at hkept
    rw [hsizes, Mark.lastField_of_other j fun _ _ => rfl]
    exact hkept
  case caps =>
    rw [Mark.capabilities_of_other j rfl]
    exact h.caps

theorem putField (h : a.Reflects j) {s : Nat} {i : UInt16} (hin : i.toNat < a.fieldCount s) (p : Pointer) :
    (a.putField s i p).Reflects (j ++ [.field s i p]) := by
  have hsizes : Mark.sizes (j ++ [.field s i p]) = Mark.sizes j := Mark.sizes_of_other j rfl
  constructor
  case words =>
    have hrows : (a.putField s i p).structs.map StructBody.data = a.structs.map StructBody.data := by
      apply map_modify_of_eq
      exact fun _ => rfl
    rw [hrows, hsizes, Mark.lastWord_of_other j fun _ _ => rfl]
    exact h.words
  case fields =>
    have hrows : (a.putField s i p).structs.map StructBody.pointers =
        (a.structs.map StructBody.pointers).modify s fun row => row.set i.toNat p := by
      apply map_modify
      exact fun _ => rfl
    rw [hrows, hsizes]
    exact h.fields.store (h.fieldCount_eq s ▸ hin) (Mark.lastField_field j s i p)
  case caps =>
    rw [Mark.capabilities_of_other j rfl]
    exact h.caps

/-- A write through a handle to a struct that is carried out. -/
theorem edit (h : a.Reflects j) {s : Nat} {change : StructEdit} {child : Option Nat}
    (hedit : a.edit s change = .ok (child, b)) : b.Reflects (j ++ Mark.ofStep j (.edit s change)) := by
  have hinside : a.outside? s change = none := by
    cases hout : a.outside? s change with
    | none => rfl
    | some e => exact absurd (hedit.symm.trans (edit_of_outside hout)) (by simp)
  rcases edit_cases hedit with ⟨o, value, rfl, -, hset⟩ | ⟨i, cap, rfl, -, rfl⟩ |
    ⟨i, size, index, d, rfl, -, hnew, rfl⟩
  · exact h.setWord hset
  · have hin : i.toNat < a.fieldCount s := by simpa [outside?] using hinside
    have hadded := (h.addCapability cap).putField (s := s) hin (.capability a.caps.length)
    rw [h.length_caps, List.append_assoc] at hadded
    rw [h.length_caps]
    exact hadded
  · have hmade := h.newStruct hnew
    -- the field is written after the allocation, and was checked before it
    have hin : i.toNat < d.fieldCount s := by
      have hin : i.toNat < a.fieldCount s := by simpa [outside?] using hinside
      rw [h.fieldCount_eq] at hin
      rw [hmade.fieldCount_eq, Mark.sizes_concat, List.map_append]
      exact Rows.lt_count_append hin _
    obtain ⟨-, -, rfl, -⟩ := newStruct_eq_ok hnew
    have hadded := hmade.putField hin (.struct a.structs.length)
    rw [h.length_structs, List.append_assoc] at hadded
    rw [h.length_structs]
    exact hadded

end Reflects

/-- A struct that a write through a handle has allocated stands behind all others. -/
theorem allocated_of_edit {s : Nat} {change : StructEdit} {child : Option Nat}
    (h : a.edit s change = .ok (child, b)) :
    (∀ i, child = some i → i = a.structs.length) ∧
      b.structs.length = a.structs.length + child.toList.length := by
  rcases edit_cases h with ⟨o, value, -, rfl, hset⟩ | ⟨i, cap, -, rfl, rfl⟩ |
    ⟨i, size, index, d, -, rfl, hnew, rfl⟩
  · obtain rfl := setWord_eq_ok hset
    simp
  · exact ⟨by simp, List.length_modify ..⟩
  · obtain ⟨-, -, rfl, rfl⟩ := newStruct_eq_ok hnew
    simp [putField]

/-- No other struct is changed. -/
theorem getElem?_edit_of_ne {s t : Nat} {change : StructEdit} {child : Option Nat}
    (h : a.edit s change = .ok (child, b)) (hne : s ≠ t) (ht : t < a.structs.length) :
    b.structs[t]? = a.structs[t]? := by
  rcases edit_cases h with ⟨o, value, -, -, hset⟩ | ⟨i, cap, -, -, rfl⟩ |
    ⟨i, size, index, d, -, -, hnew, rfl⟩
  · obtain rfl := setWord_eq_ok hset
    simp [hne]
  · simp [putField, addCapability, hne]
  · obtain ⟨d', -, -, rfl⟩ := newStruct_eq_ok hnew
    simp [putField, hne, List.getElem?_append_left ht]

end Arena

/-! ## Steps on a message -/

/-- The struct that a step writes into. -/
def MessageStep.target? : MessageStep → Option Nat
  | .edit s _ => some s
  | _ => none

namespace Message

variable {m m' : Message} {j : List Mark} {s : MessageStep}

/-- The marks after one more step. A step that is not done leaves none. -/
def record (m : Message) (j : List Mark) (s : MessageStep) : List Mark :=
  match (m.step s).1 with
  | .done _ => j ++ Mark.ofStep j s
  | _ => j

theorem newStruct_of_step {size : ObjectSize} {index : Option Nat}
    (h : m.step (.newStruct size) = (.done index, m')) :
    ∃ i a, index = some i ∧ m.arena.newStruct size = .ok (i, a) ∧ m' = { m with arena := a } := by
  simp only [step] at h
  split at h
  · next i m₁ hnew =>
      obtain ⟨a, ha, rfl⟩ := newStruct_eq_ok hnew
      obtain ⟨hindex, rfl⟩ := Prod.mk.inj h
      exact ⟨i, a, (Ending.done.inj hindex).symm, ha, rfl⟩
  · exact absurd (congrArg Prod.fst h) (by simp)

theorem edit_of_step {t : Nat} {change : StructEdit} {child : Option Nat}
    (h : m.step (.edit t change) = (.done child, m')) :
    ∃ a, m.arena.edit t change = .ok (child, a) ∧ m' = { m with arena := a } := by
  simp only [step] at h
  split at h
  · next made a ha =>
      obtain ⟨hchild, rfl⟩ := Prod.mk.inj h
      exact ⟨a, Ending.done.inj hchild ▸ ha, rfl⟩
  · exact absurd (congrArg Prod.fst h) (by simp)

/-- A step without marks to leave is about the root. -/
theorem contents_of_done {index : Option Nat} (hplain : Mark.ofStep j s = [])
    (h : m.step s = (.done index, m')) :
    m'.arena.structs = m.arena.structs ∧ m'.arena.caps = m.arena.caps := by
  have paid {words : Nat} {a : Arena} (ha : m.arena.charge words = .ok a) :
      a.structs = m.arena.structs ∧ a.caps = m.arena.caps := by
    obtain ⟨-, rfl⟩ := (m.arena.charge_eq_ok_iff a words).1 ha
    exact ⟨rfl, rfl⟩
  cases s with
  | initReturn id =>
      obtain ⟨a, ha, rfl⟩ := exists_of_map_eq_ok (settle_eq_done h)
      exact paid ha
  | initAbort type reason =>
      obtain ⟨a, ha, rfl⟩ := exists_of_map_eq_ok (settle_eq_done (check_eq_done h))
      exact paid ha
  | initResults =>
      obtain ⟨ret, a, -, ha, rfl⟩ := initResults_eq_ok (settle_eq_done h)
      exact paid ha
  | initException type =>
      obtain ⟨ret, a, -, ha, rfl⟩ := initException_eq_ok (settle_eq_done h)
      exact paid ha
  | setExceptionReason reason =>
      obtain ⟨ret, exc, a, -, -, ha, rfl⟩ := setExceptionReason_eq_ok (charge_eq_done h)
      exact paid ha
  | initCapTable len =>
      obtain ⟨ret, payload, a, -, -, ha, rfl⟩ := initCapTable_eq_ok (charge_eq_done (check_eq_done h))
      exact paid ha
  | newStruct size => exact absurd hplain (by simp [Mark.ofStep])
  | addCapability cap => exact absurd hplain (by simp [Mark.ofStep])
  | edit t change => cases change <;> exact absurd hplain (by simp [Mark.ofStep])
  | address id release =>
      obtain ⟨ret, -, rfl⟩ := modifyReturn_eq_ok_iff.1 (settle_eq_done h)
      exact ⟨rfl, rfl⟩
  | setContent p =>
      obtain ⟨ret, payload, -, -, rfl⟩ := modifyResults_eq_ok_iff.1 (settle_eq_done h)
      exact ⟨rfl, rfl⟩
  | describe table =>
      obtain ⟨ret, payload, -, -, rfl⟩ := modifyResults_eq_ok_iff.1 (settle_eq_done h)
      exact ⟨rfl, rfl⟩

/-- A step that is not done may have charged the message, and stores nothing. -/
theorem contents_of_undone (h : ∀ index, (m.step s).1 ≠ .done index) :
    (m.step s).2.arena.structs = m.arena.structs ∧ (m.step s).2.arena.caps = m.arena.caps := by
  rcases m.step_cases s with ⟨-, heq⟩ | ⟨-, ⟨index, hdone⟩ | ⟨e, heq⟩ | ⟨-, -, e, -, heq⟩⟩
  · rw [heq]
    exact ⟨rfl, rfl⟩
  · exact absurd hdone (h index)
  · rw [heq]
    exact ⟨rfl, rfl⟩
  · rw [heq]
    exact ⟨rfl, rfl⟩

/-- What a step stores in the message. -/
inductive Storing (m : Message) (s : MessageStep) : Prop
  /-- It is not done, or it is about the root. -/
  | nothing (unmarked : (∀ index, (m.step s).1 ≠ .done index) ∨ ∀ j, Mark.ofStep j s = [])
      (structs : (m.step s).2.arena.structs = m.arena.structs) (caps : (m.step s).2.arena.caps = m.arena.caps)
  | struct {size : ObjectSize} {i : Nat} {a : Arena} (isStep : s = .newStruct size)
      (made : m.arena.newStruct size = .ok (i, a)) (step : m.step s = (.done (some i), { m with arena := a }))
  | capability {cap : Capability} (isStep : s = .addCapability cap)
  | write {t : Nat} {change : StructEdit} {child : Option Nat} {a : Arena} (isStep : s = .edit t change)
      (edited : m.arena.edit t change = .ok (child, a)) (step : m.step s = (.done child, { m with arena := a }))

theorem storing (m : Message) (s : MessageStep) : m.Storing s := by
  by_cases hdone : ∃ index, (m.step s).1 = .done index
  · obtain ⟨index, hdone⟩ := hdone
    have hstep : m.step s = (.done index, (m.step s).2) := Prod.ext hdone rfl
    have plain (hplain : ∀ j, Mark.ofStep j s = []) : m.Storing s := by
      obtain ⟨hstructs, hcaps⟩ := contents_of_done (hplain []) hstep
      exact .nothing (Or.inr hplain) hstructs hcaps
    cases s with
    | newStruct size =>
        obtain ⟨i, a, rfl, hnew, heq⟩ := newStruct_of_step hstep
        exact .struct rfl hnew (hstep.trans (congrArg _ heq))
    | addCapability cap => exact .capability rfl
    | edit t change =>
        obtain ⟨a, hedit, heq⟩ := edit_of_step hstep
        exact .write rfl hedit (hstep.trans (congrArg _ heq))
    | _ => exact plain fun _ => rfl
  · have hundone := not_exists.1 hdone
    obtain ⟨hstructs, hcaps⟩ := contents_of_undone hundone
    exact .nothing (Or.inl hundone) hstructs hcaps

theorem record_of_unmarked (h : (∀ index, (m.step s).1 ≠ .done index) ∨ ∀ j, Mark.ofStep j s = [])
    (j : List Mark) : m.record j s = j := by
  unfold record
  split
  · next index hdone =>
      rcases h with hundone | hplain
      · exact absurd hdone (hundone index)
      · rw [hplain, List.append_nil]
  · rfl

theorem reflects_step (h : m.arena.Reflects j) (s : MessageStep) :
    (m.step s).2.arena.Reflects (m.record j s) := by
  cases m.storing s with
  | nothing unmarked structs caps =>
      rw [record_of_unmarked unmarked]
      exact h.of_eq structs caps
  | struct isStep made step =>
      subst isStep
      unfold record
      rw [step]
      exact h.newStruct made
  | capability isStep =>
      subst isStep
      exact h.addCapability _
  | write isStep edited step =>
      subst isStep
      unfold record
      rw [step]
      exact h.edit edited

/-- No step changes a struct that it does not write into. -/
theorem getElem?_step_of_ne {t : Nat} (ht : t < m.arena.structs.length) (hne : s.target? ≠ some t) :
    (m.step s).2.arena.structs[t]? = m.arena.structs[t]? := by
  cases m.storing s with
  | nothing unmarked structs caps => rw [structs]
  | struct isStep made step =>
      obtain ⟨d, -, -, rfl⟩ := Arena.newStruct_eq_ok made
      rw [step]
      exact List.getElem?_append_left ht
  | capability isStep =>
      subst isStep
      rfl
  | write isStep edited step =>
      subst isStep
      rw [step]
      exact Arena.getElem?_edit_of_ne edited (fun heq => hne (congrArg some heq)) ht

/-- Fields go on leading to something that is there. -/
theorem sound_step (h : m.arena.Sound) (s : MessageStep) : (m.step s).2.arena.Sound := by
  cases m.storing s with
  | nothing unmarked structs caps =>
      intro body hbody p hp
      rw [structs] at hbody
      exact (h body hbody p hp).mono (Nat.le_of_eq (congrArg _ structs.symm)) (Nat.le_of_eq (congrArg _ caps.symm))
  | struct isStep made step =>
      rw [step]
      exact (Arena.grows_newStruct made).1.sound h
  | capability isStep =>
      subst isStep
      exact (m.arena.grows_addCapability _).1.sound h
  | write isStep edited step =>
      rw [step]
      exact (Arena.edited edited).grows.sound h

end Message

end Callee
