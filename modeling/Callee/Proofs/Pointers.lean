import Callee.Proofs.Storage

set_option autoImplicit false

/-! # Where pointers lead

Structs and capabilities of a message refer to each other by index, and nothing checks an index when it is
used. What keeps them right is that an index is only ever given out for what was just allocated, and that
nothing allocated goes away: an arena only grows (`Arena.Grows`), and with it every pointer that stands in
a struct, or as the content of results, goes on leading to what it led to. `Message.Builds` says the same
of the work on a message, and `MessageStore.Grows` of the arenas of all messages. -/

namespace Callee

/-! ## Arenas -/

namespace Arena

/-- A pointer leads to something that is there. -/
def Has (a : Arena) : Pointer → Prop
  | .null => True
  | .struct index => index < a.structs.length
  | .capability index => index < a.caps.length

/-- Every field of every struct leads to something that is there. -/
def Sound (a : Arena) : Prop := ∀ body ∈ a.structs, ∀ p ∈ body.pointers, a.Has p

/-- Nothing that was allocated goes away, pointers go on leading to what is there, and the limit stays. -/
structure Grows (a b : Arena) : Prop where
  structs : a.structs.length ≤ b.structs.length
  caps : a.caps.length ≤ b.caps.length
  limit : b.wordLimit = a.wordLimit
  sound : a.Sound → b.Sound

theorem Has.mono {a b : Arena} {p : Pointer} (h : a.Has p) (hs : a.structs.length ≤ b.structs.length)
    (hc : a.caps.length ≤ b.caps.length) : b.Has p := by
  cases p with
  | null => trivial
  | struct index => exact Nat.lt_of_lt_of_le h hs
  | capability index => exact Nat.lt_of_lt_of_le h hc

theorem Grows.refl (a : Arena) : a.Grows a := ⟨Nat.le_refl _, Nat.le_refl _, rfl, fun h => h⟩

theorem Grows.trans {a b d : Arena} (h : a.Grows b) (h' : b.Grows d) : a.Grows d :=
  ⟨Nat.le_trans h.structs h'.structs, Nat.le_trans h.caps h'.caps, h'.limit.trans h.limit,
    fun hs => h'.sound (h.sound hs)⟩

theorem Grows.has {a b : Arena} (h : a.Grows b) {p : Pointer} (hp : a.Has p) : b.Has p :=
  hp.mono h.structs h.caps

theorem sound_empty (wordLimit : Option Nat) : ({ wordLimit := wordLimit } : Arena).Sound :=
  fun _ hbody => absurd hbody (by simp)

/-- There are no more structs and no more slots than 32 bits can number. -/
def Numbered (a : Arena) : Prop := a.structs.length ≤ UInt32.size ∧ a.caps.length ≤ UInt32.size

/-- Then 32 bits hold the index of each of them. -/
theorem Has.index_exact {a : Arena} {p : Pointer} (hp : a.Has p) (h : a.Numbered) :
    p.index.toUInt32.toNat = p.index := by
  refine UInt32.toNat_ofNat_of_lt' ?_
  cases p with
  | null => exact Nat.zero_lt_succ _
  | struct index => exact Nat.lt_of_lt_of_le hp h.1
  | capability index => exact Nat.lt_of_lt_of_le hp h.2

/-- A field of an arena leads to something that is there, whether its struct exists or not. -/
theorem Sound.has_field {a : Arena} (h : a.Sound) (struct : Nat) (index : UInt16) :
    a.Has (a.field struct index) := by
  unfold field
  split
  · next body hbody =>
      cases hp : body.pointers[index.toNat]? with
      | none => rw [List.getD_eq_getElem?_getD, hp]; exact trivial
      | some p =>
          rw [List.getD_eq_getElem?_getD, hp]
          exact h body (List.mem_of_getElem? hbody) p (List.mem_of_getElem? hp)
  · exact trivial

/-! ### What builds an arena -/

theorem grows_charge (a : Arena) (words : Nat) : a.Grows { a with wordsUsed := words } :=
  ⟨Nat.le_refl _, Nat.le_refl _, rfl, fun hs body hbody p hp =>
    (hs body hbody p hp).mono (Nat.le_refl _) (Nat.le_refl _)⟩

theorem grows_of_charge {a b : Arena} {words : Nat} (h : a.charge words = .ok b) : a.Grows b := by
  obtain ⟨-, rfl⟩ := (charge_eq_ok_iff a b words).1 h
  exact a.grows_charge _

theorem grows_newStruct {a b : Arena} {size : ObjectSize} {index : Nat}
    (h : a.newStruct size = .ok (index, b)) : a.Grows b ∧ b.Has (.struct index) := by
  obtain ⟨d, halloc, rfl, rfl⟩ := newStruct_eq_ok h
  have hcharged := grows_of_charge halloc
  have hmore : a.structs.length ≤ (a.structs ++ [StructBody.blank size]).length := by simp
  refine ⟨⟨hmore, hcharged.caps, hcharged.limit, fun hs body hbody p hp => ?_⟩, ?_⟩
  · rcases List.mem_append.1 hbody with hold | hnew
    · exact (hs body hold p hp).mono hmore hcharged.caps
    · -- all fields of a new struct are null
      obtain rfl := List.mem_singleton.1 hnew
      obtain rfl := List.eq_of_mem_replicate hp
      exact trivial
  · show a.structs.length < (a.structs ++ [StructBody.blank size]).length
    simp

theorem grows_addCapability (a : Arena) (cap : Capability) :
    a.Grows (a.addCapability cap).2 ∧ (a.addCapability cap).2.Has (.capability (a.addCapability cap).1) := by
  refine ⟨⟨Nat.le_refl _, by simp [addCapability], rfl, fun hs body hbody p hp =>
    (hs body hbody p hp).mono (Nat.le_refl _) (by simp [addCapability])⟩, ?_⟩
  show a.caps.length < (a.caps ++ [some cap]).length
  simp

/-- A field is pointed to something that is there. -/
theorem grows_putField (a : Arena) (struct : Nat) (index : UInt16) {p : Pointer} (hp : a.Has p) :
    a.Grows (a.putField struct index p) := by
  have hlen : (a.putField struct index p).structs.length = a.structs.length := List.length_modify ..
  refine ⟨Nat.le_of_eq hlen.symm, Nat.le_refl _, rfl, fun hs body hbody q hq => ?_⟩
  have hkeep : ∀ {q : Pointer}, a.Has q → (a.putField struct index p).Has q :=
    fun h => h.mono (Nat.le_of_eq hlen.symm) (Nat.le_refl _)
  obtain ⟨j, hj⟩ := List.mem_iff_getElem?.1 hbody
  unfold putField at hj
  rw [List.getElem?_modify] at hj
  obtain ⟨old, hold, rfl⟩ := Option.map_eq_some_iff.1 hj
  have hin : old ∈ a.structs := List.mem_of_getElem? hold
  by_cases hstruct : struct = j
  · rw [if_pos hstruct] at hq
    rcases List.mem_or_eq_of_mem_set hq with hq | rfl
    · exact hkeep (hs old hin q hq)
    · exact hkeep hp
  · rw [if_neg hstruct] at hq
    exact hkeep (hs old hin q hq)

/-- Writing a word leaves all fields. -/
theorem grows_setWord {a b : Arena} {struct : Nat} {offset : UInt16} {value : UInt64}
    (h : a.setWord struct offset value = .ok b) :
    a.Grows b ∧ b.caps = a.caps ∧ b.structs.map StructBody.pointers = a.structs.map StructBody.pointers := by
  obtain rfl := setWord_eq_ok h
  have hpointers : (a.structs.modify struct fun body =>
      { body with data := body.data.set offset.toNat value }).map StructBody.pointers =
        a.structs.map StructBody.pointers := by
    apply List.ext_getElem?
    intro j
    rw [List.getElem?_map, List.getElem?_map, List.getElem?_modify]
    cases a.structs[j]? with
    | none => rfl
    | some body => by_cases hj : struct = j <;> simp [hj]
  have hlen : (a.structs.modify struct fun body =>
      { body with data := body.data.set offset.toNat value }).length = a.structs.length :=
    List.length_modify ..
  refine ⟨⟨Nat.le_of_eq hlen.symm, Nat.le_refl _, rfl, fun hs body hbody q hq => ?_⟩, rfl, hpointers⟩
  -- the fields of the struct are those of a struct from before
  have hmem := List.mem_map_of_mem (f := StructBody.pointers) hbody
  rw [hpointers] at hmem
  obtain ⟨old, hold, hsame⟩ := List.mem_map.1 hmem
  exact (hs old hold q (hsame ▸ hq)).mono (Nat.le_of_eq hlen.symm) (Nat.le_refl _)

end Arena

/-- The field that a write through a handle to a struct points to something, if it does. -/
def StructEdit.field? : StructEdit → Option UInt16
  | .setWord _ _ => none
  | .setCapability index _ => some index
  | .initStruct index _ => some index

namespace Arena

/-- What a write through a handle to a struct comes to. -/
inductive Edited (a : Arena) (struct : Nat) (change : StructEdit) (b : Arena) : Prop
  /-- A word is written, and all fields stay. -/
  | word (field : change.field? = none) (grows : a.Grows b) (caps : b.caps = a.caps)
      (pointers : b.structs.map StructBody.pointers = a.structs.map StructBody.pointers)
  /-- Something is added, and a field is pointed to it. -/
  | pointer {index : UInt16} {p : Pointer} {more : List StructBody} {caps : List Capability} {d : Arena}
      (field : change.field? = some index) (grows : a.Grows d)
      (structs : d.structs = a.structs ++ more) (added : d.caps = a.caps ++ caps.map some) (has : d.Has p)
      (put : b = d.putField struct index p)

theorem edited {a b : Arena} {struct : Nat} {change : StructEdit} {child : Option Nat}
    (h : a.edit struct change = .ok (child, b)) : a.Edited struct change b := by
  rcases edit_cases h with ⟨offset, value, rfl, -, hset⟩ | ⟨index, cap, rfl, -, rfl⟩ |
    ⟨index, size, i, d, rfl, -, hnew, rfl⟩
  · obtain ⟨hgrows, hcaps, hpointers⟩ := grows_setWord hset
    exact .word rfl hgrows hcaps hpointers
  · obtain ⟨hgrows, hhas⟩ := a.grows_addCapability cap
    have hcaps : (a.addCapability cap).2.caps = a.caps ++ [cap].map some := rfl
    exact .pointer rfl hgrows (List.append_nil _).symm hcaps hhas rfl
  · obtain ⟨hgrows, hhas⟩ := grows_newStruct hnew
    have hadded : d.caps = a.caps ++ [].map some :=
      (caps_of_newStruct hnew).trans (List.append_nil _).symm
    obtain ⟨d', -, -, rfl⟩ := newStruct_eq_ok hnew
    exact .pointer rfl hgrows rfl hadded hhas rfl

theorem Edited.grows {a b : Arena} {struct : Nat} {change : StructEdit}
    (h : a.Edited struct change b) : a.Grows b := by
  cases h with
  | word _ grows => exact grows
  | pointer _ grows _ _ has put => exact put ▸ grows.trans (grows_putField _ struct _ has)

end Arena

/-! ## Messages -/

/-- The content of the results in a root, if it holds any. -/
def Root.content? : Root → Option Pointer
  | .return { outcome := .results payload, .. } => some payload.content
  | _ => none

/-- The content of a message leads to something that is there. -/
def Message.HasContent (m : Message) : Prop := ∀ p, m.root.bind Root.content? = some p → m.arena.Has p

/-- What work on a message does: its arena grows, and its content goes on leading to what is there. -/
structure Message.Builds (m m' : Message) : Prop where
  arena : m.arena.Grows m'.arena
  content : m.HasContent → m'.HasContent

namespace Message

theorem Builds.refl (m : Message) : m.Builds m := ⟨.refl _, fun h => h⟩

theorem Builds.trans {m m' m'' : Message} (h : m.Builds m') (h' : m'.Builds m'') : m.Builds m'' :=
  ⟨h.arena.trans h'.arena, fun hm => h'.content (h.content hm)⟩

/-- The arena of a message grows, and its content is what it was or leads to something. -/
theorem builds_of_content {m m' : Message} (harena : m.arena.Grows m'.arena)
    (hcontent : ∀ p, m'.root.bind Root.content? = some p →
      m.root.bind Root.content? = some p ∨ m'.arena.Has p) : m.Builds m' :=
  ⟨harena, fun hm p hp => (hcontent p hp).elim (fun hold => harena.has (hm p hold)) id⟩

theorem builds_of_arena {m : Message} {a : Arena} (h : m.arena.Grows a) :
    m.Builds { m with arena := a } :=
  builds_of_content h fun _ hp => Or.inl hp

/-! ### Roots -/

theorem content?_of_results {m : Message} {ret : Return} {payload : Payload}
    (hroot : m.root = some (.return ret)) (hout : ret.outcome = .results payload) :
    m.root.bind Root.content? = some payload.content := by
  obtain ⟨id, release, outcome⟩ := ret
  obtain rfl : outcome = .results payload := hout
  rw [hroot]
  rfl

theorem builds_startReturn {m m' : Message} {id : AnswerId} (h : m.startReturn id = .ok m') :
    m.Builds m' := by
  obtain ⟨a, ha, rfl⟩ := startReturn_eq_ok h
  exact builds_of_content (Arena.grows_of_charge ha) fun p hp => absurd hp (by simp [Root.content?])

theorem builds_writeAbort {m m' : Message} {e : Error} (h : (m.writeAbort e).value = .ok m') : m.Builds m' := by
  obtain ⟨a, ha, rfl⟩ := writeAbort_eq_ok h
  exact builds_of_content (Arena.grows_of_charge ha) fun p hp => absurd hp (by simp [Root.content?])

/-- The results are pointed to something that is there, or go on pointing to what they pointed to. -/
theorem builds_of_results {m : Message} {a : Arena} {ret : Return} {payload : Payload}
    (harena : m.arena.Grows a)
    (hcontent : m.root.bind Root.content? = some payload.content ∨ a.Has payload.content) :
    m.Builds { arena := a, root := some (.return { ret with outcome := .results payload }) } :=
  builds_of_content harena fun _ hp => Option.some.inj hp ▸ hcontent

/-- Every move that work on a message is made of. -/
theorem builds_rule : SealingRule Builds where
  refl := .refl
  trans h h' := h.trans h'
  charges h := builds_of_arena (Arena.grows_of_charge h)
  adds m cap := builds_of_arena (m.arena.grows_addCapability cap).1
  drops {m ret outcome} _ hout := by
    rcases hout with rfl | ⟨exc, rfl⟩
    · exact builds_of_results (.refl _) (Or.inr trivial)
    · exact builds_of_content (.refl _) fun p hp => absurd hp (by simp [Root.content?])
  structs _ _ hnew := by
    obtain ⟨hgrows, hhas⟩ := Arena.grows_newStruct hnew
    exact builds_of_results hgrows (Or.inr hhas)
  boots {m _} cap _ := by
    obtain ⟨hgrows, hhas⟩ := m.arena.grows_addCapability cap
    exact builds_of_results hgrows (Or.inr hhas)
  tables _ hroot hout := by
    have hsame := content?_of_results hroot hout
    exact builds_of_results (.refl _) (Or.inl hsame)
  describes _ hroot hout := by
    have hsame := content?_of_results hroot hout
    exact builds_of_results (.refl _) (Or.inl hsame)

end Message

/-! ## The store -/

namespace MessageStore

/-- Every arena that has a number has grown at most, and no number was taken back. -/
structure Grows (s s' : MessageStore) : Prop where
  next : s.next ≤ s'.next
  arena : ∀ id, id < s.next → (s.arena id).Grows (s'.arena id)
  sound : (∀ id, (s.arena id).Sound) → ∀ id, (s'.arena id).Sound

theorem Grows.refl (s : MessageStore) : s.Grows s := ⟨Nat.le_refl _, fun _ _ => .refl _, fun h => h⟩

theorem Grows.trans {s s' s'' : MessageStore} (h : s.Grows s') (h' : s'.Grows s'') : s.Grows s'' :=
  ⟨Nat.le_trans h.next h'.next,
    fun id hid => (h.arena id hid).trans (h'.arena id (Nat.lt_of_lt_of_le hid h.next)),
    fun hs => h'.sound (h.sound hs)⟩

theorem grows_putArena {s : MessageStore} {id : ArenaId} {a : Arena} (h : (s.arena id).Grows a) :
    s.Grows (s.putArena id a) := by
  refine ⟨Nat.le_refl _, fun j _ => ?_, fun hs j => ?_⟩
  · by_cases hj : j = id
    · subst hj
      rw [arena_putArena_self]
      exact h
    · rw [arena_putArena_of_ne s hj]
      exact .refl _
  · by_cases hj : j = id
    · subst hj
      rw [arena_putArena_self]
      exact h.sound (hs j)
    · rw [arena_putArena_of_ne s hj]
      exact hs j

theorem grows_put {s : MessageStore} {e : Envelope} {m : Message} (h : (s.message e).Builds m) :
    s.Grows (s.put e m).2 :=
  grows_putArena h.arena

theorem arena_create (s : MessageStore) (wordLimit : Option Nat) (id : ArenaId) :
    (s.create wordLimit).2.arena id = if id = s.next then { wordLimit := wordLimit } else s.arena id := by
  unfold create arena
  dsimp only
  rw [Table.get?_insert]
  split <;> rfl

theorem grows_create (s : MessageStore) (wordLimit : Option Nat) :
    s.Grows (s.create wordLimit).2 := by
  refine ⟨Nat.le_succ _, fun id hid => ?_, fun hs id => ?_⟩
  · rw [arena_create, if_neg (Nat.ne_of_lt hid)]
    exact .refl _
  · rw [arena_create]
    split
    · exact Arena.sound_empty wordLimit
    · exact hs id

theorem grows_edit (s : MessageStore) (ref : StructRef) (change : StructEdit) :
    s.Grows (s.edit ref change).2 := by
  unfold edit
  split
  · exact .refl s
  · next child a h => exact grows_putArena (Arena.edited h).grows

end MessageStore

end Callee
