import Callee.Message.Store

set_option autoImplicit false

/-! # Operations that succeed

An operation on a message that is under construction fails for want of words, or because the message does not
hold what the operation goes on with. Here stands, for one operation after the other, what the message is if it
does not fail. What such work leaves alone, keeps or adds is read off that, and nobody has to look into the
operations again. -/

namespace Callee

/-- A mapped computation that has given something has given what it was mapped from. -/
theorem exists_of_map_eq_ok {ε α β : Type} {r : Except ε α} {f : α → β} {y : β} (h : r.map f = .ok y) :
    ∃ x, r = .ok x ∧ f x = y := by
  cases r with
  | error e => exact absurd h (by simp [Except.map])
  | ok x => exact ⟨x, rfl, Except.ok.inj h⟩

/-- And one that has failed has failed as what it was mapped from did. -/
theorem eq_error_of_map_eq_error {ε α β : Type} {r : Except ε α} {f : α → β} {e : ε}
    (h : r.map f = .error e) : r = .error e := by
  cases r with
  | error e' =>
      obtain rfl : e' = e := Except.error.inj h
      rfl
  | ok x => exact absurd h (by simp [Except.map])

/-! ## Arenas -/

namespace Arena

variable {a b : Arena}

/-- A new struct stands behind all others. -/
theorem newStruct_eq_ok {size : ObjectSize} {index : Nat} (h : a.newStruct size = .ok (index, b)) :
    ∃ d, a.allocate size.total = .ok d ∧ index = a.structs.length ∧
      b = { d with structs := a.structs ++ [StructBody.blank size] } := by
  obtain ⟨d, halloc, hd⟩ := exists_of_map_eq_ok h
  obtain ⟨-, rfl⟩ := (a.allocate_eq_ok_iff d _).1 halloc
  obtain ⟨rfl, rfl⟩ := Prod.mk.inj hd
  exact ⟨_, halloc, rfl, rfl⟩

theorem setWord_eq_ok {struct : Nat} {offset : UInt16} {value : UInt64}
    (h : a.setWord struct offset value = .ok b) : b = { a with
      structs := a.structs.modify struct fun body =>
        { body with data := body.data.set offset.toNat value } } := by
  unfold setWord at h
  split at h
  · exact (Except.ok.inj h).symm
  · exact absurd h (by simp)

/-- A write through a handle to a struct is into a word, or points a field to what it has added. It gives the struct
    that it has allocated. -/
theorem edit_cases {struct : Nat} {change : StructEdit} {child : Option Nat}
    (h : a.edit struct change = .ok (child, b)) :
    (∃ offset value, change = .setWord offset value ∧ child = none ∧ a.setWord struct offset value = .ok b) ∨
      (∃ index cap, change = .setCapability index cap ∧ child = none ∧
        b = (a.addCapability cap).2.putField struct index (.capability a.caps.length)) ∨
      ∃ index size i d, change = .initStruct index size ∧ child = some i ∧ a.newStruct size = .ok (i, d) ∧
        b = d.putField struct index (.struct i) := by
  cases change with
  | setWord offset value =>
      obtain ⟨d, hset, hd⟩ := exists_of_map_eq_ok h
      obtain ⟨rfl, rfl⟩ := Prod.mk.inj hd
      exact Or.inl ⟨offset, value, rfl, rfl, hset⟩
  | setCapability index cap =>
      obtain ⟨d, hset, hd⟩ := exists_of_map_eq_ok h
      obtain ⟨rfl, rfl⟩ := Prod.mk.inj hd
      unfold setCapability at hset
      split at hset
      · exact Or.inr (Or.inl ⟨index, cap, rfl, rfl, (Except.ok.inj hset).symm⟩)
      · exact absurd hset (by simp)
  | initStruct index size =>
      obtain ⟨⟨i, d⟩, hinit, hd⟩ := exists_of_map_eq_ok h
      obtain ⟨rfl, rfl⟩ := Prod.mk.inj hd
      unfold initStruct at hinit
      split at hinit
      · obtain ⟨⟨j, d'⟩, hnew, hput⟩ := exists_of_map_eq_ok hinit
        obtain ⟨rfl, rfl⟩ := Prod.mk.inj hput
        exact Or.inr (Or.inr ⟨index, size, j, d', rfl, rfl, hnew, rfl⟩)
      · exact absurd hinit (by simp)

end Arena

namespace Message

/-! ## Reading -/

theorem getReturn_eq_ok_iff {m : Message} {ret : Return} :
    m.getReturn = .ok ret ↔ m.root = some (.return ret) := by
  unfold getReturn
  split
  · next ret' hroot => simp [hroot]
  · next hnot =>
      refine ⟨fun h => absurd h (by simp), fun h => ?_⟩
      exact absurd h (hnot ret)

theorem getResults_eq_ok_iff {m : Message} {payload : Payload} :
    m.getResults = .ok payload ↔ ∃ ret, m.root = some (.return ret) ∧ ret.outcome = .results payload := by
  unfold getResults
  constructor
  · intro h
    split at h
    · exact absurd h (by simp)
    · next ret hret =>
        split at h
        · next payload' hout =>
            obtain rfl := Except.ok.inj h
            exact ⟨ret, getReturn_eq_ok_iff.1 hret, hout⟩
        · exact absurd h (by simp)
  · rintro ⟨ret, hroot, hout⟩
    rw [getReturn_eq_ok_iff.2 hroot]
    dsimp only
    rw [hout]

/-! ## Writing into a return -/

theorem modifyReturn_eq_ok_iff {m m' : Message} {f : Return → Return} :
    m.modifyReturn f = .ok m' ↔
      ∃ ret, m.root = some (.return ret) ∧ m' = { m with root := some (.return (f ret)) } := by
  unfold modifyReturn
  constructor
  · intro h
    obtain ⟨ret, hret, rfl⟩ := exists_of_map_eq_ok h
    exact ⟨ret, getReturn_eq_ok_iff.1 hret, rfl⟩
  · rintro ⟨ret, hroot, rfl⟩
    rw [getReturn_eq_ok_iff.2 hroot]
    rfl

/-- Changing the results changes what they are, and nothing else of the message. -/
theorem modifyResults_eq_ok_iff {m m' : Message} {f : Payload → Payload} :
    m.modifyResults f = .ok m' ↔ ∃ ret payload, m.root = some (.return ret) ∧
      ret.outcome = .results payload ∧
      m' = { m with root := some (.return { ret with outcome := .results (f payload) }) } := by
  unfold modifyResults
  constructor
  · intro h
    split at h
    · exact absurd h (by simp)
    · next payload hres =>
        obtain ⟨ret, hroot, hout⟩ := getResults_eq_ok_iff.1 hres
        obtain ⟨ret', hroot', rfl⟩ := modifyReturn_eq_ok_iff.1 h
        obtain rfl := Root.return.inj (Option.some.inj (hroot.symm.trans hroot'))
        exact ⟨ret, payload, hroot, hout, rfl⟩
  · rintro ⟨ret, payload, hroot, hout, rfl⟩
    rw [getResults_eq_ok_iff.2 ⟨ret, hroot, hout⟩]
    exact modifyReturn_eq_ok_iff.2 ⟨ret, hroot, rfl⟩

theorem modifyResults_of_getResults {m : Message} {payload : Payload}
    (hresults : m.getResults = .ok payload) (f : Payload → Payload) :
    ∃ m', m.modifyResults f = .ok m' := by
  obtain ⟨ret, hroot, hout⟩ := getResults_eq_ok_iff.1 hresults
  exact ⟨_, modifyResults_eq_ok_iff.2 ⟨ret, payload, hroot, hout, rfl⟩⟩

theorem initResults_of_root {m : Message} {ret : Return} (hroot : m.root = some (.return ret)) :
    m.initResults = (m.arena.allocate payloadWords).map fun a =>
      { arena := a, root := some (.return { ret with outcome := .results {} }) } := by
  unfold initResults
  rw [getReturn_eq_ok_iff.2 hroot]

theorem initResults_eq_ok {m m' : Message} (h : m.initResults = .ok m') :
    ∃ ret a, m.root = some (.return ret) ∧ m.arena.allocate payloadWords = .ok a ∧
      m' = { arena := a, root := some (.return { ret with outcome := .results {} }) } := by
  unfold initResults at h
  split at h
  · exact absurd h (by simp)
  · next ret hret =>
      obtain ⟨a, ha, rfl⟩ := exists_of_map_eq_ok h
      exact ⟨ret, a, getReturn_eq_ok_iff.1 hret, ha, rfl⟩

theorem initException_eq_ok {m m' : Message} {type : ExceptionType} (h : m.initException type = .ok m') :
    ∃ ret a, m.root = some (.return ret) ∧ m.arena.allocate exceptionWords = .ok a ∧
      m' = { arena := a,
             root := some (.return { ret with outcome := .exception { type := type, reason := "" } }) } := by
  unfold initException at h
  split at h
  · exact absurd h (by simp)
  · next ret hret =>
      obtain ⟨a, ha, rfl⟩ := exists_of_map_eq_ok h
      exact ⟨ret, a, getReturn_eq_ok_iff.1 hret, ha, rfl⟩

theorem putReason_eq_ok {m m' : Message} {reason : String} (h : m.putReason reason = .ok m') :
    ∃ ret exc, m.root = some (.return ret) ∧ ret.outcome = .exception exc ∧ m' = { m with
      root := some (.return { ret with outcome := .exception { exc with reason := reason } }) } := by
  unfold putReason at h
  split at h
  · exact absurd h (by simp)
  · next ret hret =>
      split at h
      · next exc hout =>
          have hroot := getReturn_eq_ok_iff.1 hret
          obtain ⟨ret', hroot', rfl⟩ := modifyReturn_eq_ok_iff.1 h
          obtain rfl := Root.return.inj (Option.some.inj (hroot.symm.trans hroot'))
          exact ⟨ret, exc, hroot, hout, rfl⟩
      · exact absurd h (by simp)

/-! ## New messages -/

theorem startReturn_eq (m : Message) (id : AnswerId) :
    m.startReturn id = (m.arena.allocate (messageWords + returnWords)).map fun a =>
      { arena := a, root := some (.return { answerId := id, releaseParamCaps := false }) } := by
  unfold startReturn initReturn
  cases m.arena.allocate (messageWords + returnWords) <;> rfl

theorem startReturn_eq_ok {m m' : Message} {id : AnswerId} (h : m.startReturn id = .ok m') :
    ∃ a, m.arena.allocate (messageWords + returnWords) = .ok a ∧
      m' = { arena := a, root := some (.return { answerId := id, releaseParamCaps := false }) } := by
  rw [startReturn_eq] at h
  obtain ⟨a, ha, rfl⟩ := exists_of_map_eq_ok h
  exact ⟨a, ha, rfl⟩

theorem writeAbort_eq_ok {m m' : Message} {e : Error} (h : (m.writeAbort e).value = .ok m') :
    ∃ a, m.arena.charge (abortWords e.message) = .ok a ∧
      m' = { arena := a, root := some (.abort { type := e.exceptionType, reason := e.message }) } := by
  obtain ⟨a, ha, rfl⟩ := exists_of_map_eq_ok h
  exact ⟨a, ha, rfl⟩

theorem newStruct_eq_ok {m m' : Message} {size : ObjectSize} {index : Nat}
    (h : m.newStruct size = .ok (index, m')) :
    ∃ a, m.arena.newStruct size = .ok (index, a) ∧ m' = { m with arena := a } := by
  obtain ⟨⟨i, a⟩, ha, hmade⟩ := exists_of_map_eq_ok h
  obtain ⟨rfl, rfl⟩ := Prod.mk.inj hmade
  exact ⟨a, ha, rfl⟩

end Message

end Callee
