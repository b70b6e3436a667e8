import Callee.Proofs.Working

set_option autoImplicit false

/-! # What work on messages leaves alone

The storage of a message outlives its construction, and everyone with a handle to one of its structs may
still write into it. What was filled into a capability table stays there all the same: every operation
only adds capabilities behind those that are there (`Arena.Extends`), on one arena, on a message and on
the store of all messages. And no operation but the writing of descriptors makes a message name an
export (`Message.Worked`). -/

namespace Callee

/-! ## Arenas -/

/-- The capability table of an arena was at most added to. -/
def Arena.Extends (a b : Arena) : Prop :=
  ∃ more : List Capability, b.caps = a.caps ++ more.map some

/-- Every slot of the capability table is filled. -/
def Arena.Filled (a : Arena) : Prop :=
  ∃ caps : List Capability, a.caps = caps.map some

namespace Arena

theorem extends_of_caps {a b : Arena} (h : b.caps = a.caps) : a.Extends b := ⟨[], by simp [h]⟩

theorem Extends.refl (a : Arena) : a.Extends a := extends_of_caps rfl

theorem Extends.trans {a b c : Arena} (h : a.Extends b) (h' : b.Extends c) : a.Extends c := by
  obtain ⟨more, hb⟩ := h
  obtain ⟨more', hc⟩ := h'
  exact ⟨more ++ more', by rw [hc, hb, List.map_append, List.append_assoc]⟩

theorem Extends.filled {a b : Arena} (h : a.Extends b) (ha : a.Filled) : b.Filled := by
  obtain ⟨more, hb⟩ := h
  obtain ⟨caps, hcaps⟩ := ha
  exact ⟨caps ++ more, by rw [hb, hcaps, List.map_append]⟩

theorem Extends.getElem? {a b : Arena} (h : a.Extends b) {i : Nat} {slot : Option Capability}
    (hi : a.caps[i]? = some slot) : b.caps[i]? = some slot := by
  obtain ⟨more, hb⟩ := h
  obtain ⟨hlt, -⟩ := List.getElem?_eq_some_iff.1 hi
  rw [hb, List.getElem?_append_left hlt]
  exact hi

theorem caps_of_charge {a b : Arena} {words : Nat} (h : a.charge words = .ok b) : b.caps = a.caps := by
  rw [((a.charge_eq_ok_iff b words).1 h).2]

theorem caps_of_newStruct {a b : Arena} {size : ObjectSize} {index : Nat}
    (h : a.newStruct size = .ok (index, b)) : b.caps = a.caps := by
  obtain ⟨d, halloc, -, rfl⟩ := newStruct_eq_ok h
  show d.caps = a.caps
  exact caps_of_charge halloc

theorem extends_addCapability (a : Arena) (cap : Capability) : a.Extends (a.addCapability cap).2 :=
  ⟨[cap], rfl⟩

/-- No write through a handle to a struct takes a capability out of the table. -/
theorem extends_edit {a b : Arena} {struct : Nat} {change : StructEdit} {child : Option Nat}
    (h : a.edit struct change = .ok (child, b)) : a.Extends b := by
  rcases edit_cases h with ⟨offset, value, -, -, hset⟩ | ⟨index, cap, -, -, rfl⟩ |
    ⟨index, size, i, d, -, -, hnew, rfl⟩
  · obtain rfl := setWord_eq_ok hset
    exact extends_of_caps rfl
  · exact a.extends_addCapability cap
  · have hcaps : d.caps = a.caps := caps_of_newStruct hnew
    exact extends_of_caps hcaps

end Arena

/-! ## Messages -/

/-- The exports that a return names to the peer, one for each descriptor that names one. -/
def Outcome.hosted : Outcome → List ExportId
  | .results payload => payload.capTable.filterMap id
  | _ => []

/-- The exports that a root names. -/
def Root.hosted : Root → List ExportId
  | .return ret => ret.outcome.hosted
  | .abort _ => []

/-- The exports that a message names. -/
def Message.hosted (m : Message) : List ExportId :=
  (m.root.map Root.hosted).getD []

/-- The exports that the message in an envelope names. -/
def Envelope.hosted (e : Envelope) : List ExportId :=
  (e.root.map Root.hosted).getD []

/-- What work on a message may do: it adds capabilities at most, and names no export if none was named
    before. -/
structure Message.Worked (m m' : Message) : Prop where
  arena : m.arena.Extends m'.arena
  hosted : m.hosted = [] → m'.hosted = []

namespace Message

theorem Worked.refl (m : Message) : m.Worked m := ⟨.refl _, fun h => h⟩

theorem Worked.trans {m m' m'' : Message} (h : m.Worked m') (h' : m'.Worked m'') : m.Worked m'' :=
  ⟨h.arena.trans h'.arena, fun hm => h'.hosted (h.hosted hm)⟩

theorem worked_of_arena {m : Message} {a : Arena} (h : m.arena.Extends a) :
    m.Worked { m with arena := a } := ⟨h, fun hm => hm⟩

theorem worked_startReturn {m m' : Message} {id : AnswerId} (h : m.startReturn id = .ok m') :
    m.Worked m' ∧ m'.hosted = [] := by
  obtain ⟨a, ha, rfl⟩ := startReturn_eq_ok h
  exact ⟨⟨Arena.extends_of_caps (Arena.caps_of_charge ha), fun _ => rfl⟩, rfl⟩

theorem worked_writeAbort {m m' : Message} {e : Error} (h : (m.writeAbort e).value = .ok m') : m.Worked m' := by
  obtain ⟨a, ha, rfl⟩ := writeAbort_eq_ok h
  exact ⟨Arena.extends_of_caps (Arena.caps_of_charge ha), fun _ => rfl⟩

/-- Every move that work on a message is made of. -/
theorem worked_rule : MessageRule Worked where
  refl := .refl
  trans h h' := h.trans h'
  charges h := worked_of_arena (Arena.extends_of_caps (Arena.caps_of_charge h))
  adds m cap := worked_of_arena (m.arena.extends_addCapability cap)
  drops _ hout := ⟨.refl _, fun _ => by rcases hout with rfl | ⟨exc, rfl⟩ <;> rfl⟩
  structs hroot hout hnew := by
    refine ⟨Arena.extends_of_caps (Arena.caps_of_newStruct hnew), fun hm => ?_⟩
    simpa only [hosted, hroot, Option.map_some, Option.getD_some, Root.hosted, hout, Outcome.hosted] using hm
  boots {m _} cap _ := ⟨m.arena.extends_addCapability cap, fun _ => rfl⟩
  tables len _ _ := ⟨.refl _, fun _ => by simp [hosted, Root.hosted, Outcome.hosted]⟩

end Message

/-! ## The store -/

namespace MessageStore

/-- Every arena was at most added to, and no number was taken back. -/
structure Extends (s s' : MessageStore) : Prop where
  next : s.next ≤ s'.next
  arena : ∀ id, id < s.next → (s.arena id).Extends (s'.arena id)
  filled : (∀ id, (s.arena id).Filled) → ∀ id, (s'.arena id).Filled

theorem Extends.refl (s : MessageStore) : s.Extends s :=
  ⟨Nat.le_refl _, fun _ _ => .refl _, fun h => h⟩

theorem Extends.trans {s s' s'' : MessageStore} (h : s.Extends s') (h' : s'.Extends s'') :
    s.Extends s'' :=
  ⟨Nat.le_trans h.next h'.next,
    fun id hlt => (h.arena id hlt).trans (h'.arena id (Nat.lt_of_lt_of_le hlt h.next)),
    fun hs => h'.filled (h.filled hs)⟩

theorem extends_putArena {s : MessageStore} {id : ArenaId} {a : Arena} (h : (s.arena id).Extends a) :
    s.Extends (s.putArena id a) := by
  have hother : ∀ j, j ≠ id → (s.putArena id a).arena j = s.arena j := fun j hj =>
    s.arena_putArena_of_ne hj a
  refine ⟨Nat.le_refl _, fun j _ => ?_, fun hs j => ?_⟩
  · by_cases hj : j = id
    · rw [hj, arena_putArena_self]
      exact h
    · rw [hother j hj]
      exact .refl _
  · by_cases hj : j = id
    · rw [hj, arena_putArena_self]
      exact h.filled (hs id)
    · rw [hother j hj]
      exact hs j

theorem extends_put {s : MessageStore} {e : Envelope} {m : Message} (h : (s.message e).Worked m) :
    s.Extends (s.put e m).2 :=
  extends_putArena h.arena

theorem extends_create (s : MessageStore) (wordLimit : Option Nat) :
    s.Extends (s.create wordLimit).2 := by
  have hget : ∀ j, (s.create wordLimit).2.arena j =
      if j = s.next then { wordLimit := wordLimit } else s.arena j := by
    intro j
    simp only [create, arena, Table.get?_insert]
    split <;> rfl
  refine ⟨Nat.le_succ _, fun j hlt => ?_, fun hs j => ?_⟩
  · rw [hget, if_neg (Nat.ne_of_lt hlt)]
    exact .refl _
  · rw [hget]
    split
    · exact ⟨[], rfl⟩
    · exact hs j

theorem extends_edit (s : MessageStore) (ref : StructRef) (change : StructEdit) :
    s.Extends (s.edit ref change).2 := by
  unfold edit
  split
  · exact .refl s
  · next child a h => exact extends_putArena (Arena.extends_edit h)

end MessageStore

end Callee
