import Callee.Proofs.Drafting

set_option autoImplicit false

/-! # Trees of pointers

A struct and a capability are each allocated for one place: a field of a struct, or the content of the results.
So the structs of an arena hang together as trees (`Arena.Tree`): what a field leads to is there, it stands
behind the struct of the field, and no other field leads to it. What the results point to is the root of one of
them, to which no field leads (`Arena.Loose`). Only a pointer of that sort is ever put into a field, and only
while it is new (`Arena.Tree.putField`); that is why all work on messages keeps the trees, and keeps roots what
were roots (`Arena.Spreads`, `Message.Spreads`). -/

namespace Callee

namespace Arena

/-! ## Trees and roots -/

/-- What a field of a struct holds, if there is such a field. -/
def pointer? (a : Arena) (struct index : Nat) : Option Pointer :=
  a.structs[struct]?.bind fun body => body.pointers[index]?

/-- The structs and capabilities of an arena hang together as trees. -/
structure Tree (a : Arena) : Prop where
  /-- Every field leads to something that is there. -/
  has : ∀ {s i p}, a.pointer? s i = some p → a.Has p
  /-- A struct stands behind the one that leads to it. -/
  deeper : ∀ {s i t}, a.pointer? s i = some (.struct t) → s < t
  /-- No two fields lead to the same. -/
  once : ∀ {s i s' i' p}, a.pointer? s i = some p → a.pointer? s' i' = some p → p ≠ .null → s' = s ∧ i' = i

/-- A pointer leads to something that is there and that no field leads to. -/
structure Loose (a : Arena) (p : Pointer) : Prop where
  has : a.Has p
  unheld : p ≠ .null → ∀ s i, a.pointer? s i ≠ some p

/-- Trees stay trees, and roots stay roots. -/
structure Spreads (a b : Arena) : Prop where
  tree : a.Tree → b.Tree
  loose : a.Tree → ∀ {p}, a.Loose p → b.Loose p

theorem Spreads.refl (a : Arena) : a.Spreads a := ⟨fun h => h, fun _ _ h => h⟩

theorem Spreads.trans {a b d : Arena} (h : a.Spreads b) (h' : b.Spreads d) : a.Spreads d :=
  ⟨fun ha => h'.tree (h.tree ha), fun ha _ hp => h'.loose (h.tree ha) (h.loose ha hp)⟩

theorem loose_null (a : Arena) : a.Loose .null := ⟨trivial, fun h => absurd rfl h⟩

theorem tree_empty (wordLimit : Option Nat) : ({ wordLimit := wordLimit } : Arena).Tree := by
  have hnone : ∀ s i, ({ wordLimit := wordLimit } : Arena).pointer? s i = none := fun s i => by simp [pointer?]
  have hno : ∀ {s i p} {q : Prop}, ({ wordLimit := wordLimit } : Arena).pointer? s i = some p → q :=
    fun h => absurd ((hnone _ _).symm.trans h) (by simp)
  exact ⟨hno, hno, fun h => hno h⟩

/-! ## Room -/

/-- Something is added at most, and no field is pointed to anything that it did not lead to. -/
structure Widens (a b : Arena) : Prop where
  structs : a.structs.length ≤ b.structs.length
  caps : a.caps.length ≤ b.caps.length
  kept : ∀ {s i p}, b.pointer? s i = some p → a.pointer? s i = some p ∨ p = .null

namespace Widens

variable {a b : Arena}

theorem has (h : a.Widens b) {p : Pointer} (hp : a.Has p) : b.Has p := hp.mono h.structs h.caps

theorem spreads (h : a.Widens b) : a.Spreads b where
  tree ha := by
    constructor
    case has =>
      intro s i p hp
      rcases h.kept hp with hold | rfl
      · exact h.has (ha.has hold)
      · exact trivial
    case deeper =>
      intro s i t ht
      rcases h.kept ht with hold | hnull
      · exact ha.deeper hold
      · exact absurd hnull (by simp)
    case once =>
      intro s i s' i' p hp hp' hne
      rcases h.kept hp with hold | hnull
      · exact ha.once hold ((h.kept hp').resolve_right hne) hne
      · exact absurd hnull hne
  loose _ p hp := ⟨h.has hp.has, fun hne s i hheld => hp.unheld hne s i ((h.kept hheld).resolve_right hne)⟩

/-- What is new is held by no field. -/
theorem loose_new (h : a.Widens b) (ha : a.Tree) {p : Pointer} (hp : b.Has p) (hnew : ¬ a.Has p) : b.Loose p :=
  ⟨hp, fun hne _ _ hheld => hnew (ha.has ((h.kept hheld).resolve_right hne))⟩

end Widens

theorem widens_of_structs {a b : Arena} (hstructs : b.structs = a.structs)
    (hcaps : a.caps.length ≤ b.caps.length) : a.Widens b where
  structs := Nat.le_of_eq (congrArg List.length hstructs).symm
  caps := hcaps
  kept {s i p} hp := by
    unfold pointer? at hp ⊢
    rw [hstructs] at hp
    exact Or.inl hp

theorem widens_of_charge {a b : Arena} {words : Nat} (h : a.charge words = .ok b) : a.Widens b := by
  obtain ⟨-, rfl⟩ := (charge_eq_ok_iff a b words).1 h
  exact widens_of_structs rfl (Nat.le_refl _)

theorem widens_addCapability (a : Arena) (cap : Capability) : a.Widens (a.addCapability cap).2 :=
  widens_of_structs rfl (by simp [addCapability])

/-- All fields of a new struct are null. -/
theorem widens_newStruct {a b : Arena} {size : ObjectSize} {index : Nat}
    (h : a.newStruct size = .ok (index, b)) : a.Widens b := by
  obtain ⟨hgrows, -⟩ := grows_newStruct h
  obtain ⟨d, -, -, rfl⟩ := newStruct_eq_ok h
  refine ⟨hgrows.structs, hgrows.caps, fun {s i p} hp => ?_⟩
  obtain ⟨body, hbody, hfield⟩ := Option.bind_eq_some_iff.1 hp
  -- the struct was there before, or it is the new one
  by_cases hold : s < a.structs.length
  · refine Or.inl (Option.bind_eq_some_iff.2 ⟨body, ?_, hfield⟩)
    exact (List.getElem?_append_left hold).symm.trans hbody
  · have hnew : body ∈ [StructBody.blank size] := by
      rw [List.getElem?_append_right (Nat.le_of_not_lt hold)] at hbody
      exact List.mem_of_getElem? hbody
    obtain rfl := List.mem_singleton.1 hnew
    exact Or.inr (List.eq_of_mem_replicate (List.mem_of_getElem? hfield))

/-- What was allocated just now is nobody's yet. -/
theorem loose_newStruct {a b : Arena} {size : ObjectSize} {index : Nat} (ha : a.Tree)
    (h : a.newStruct size = .ok (index, b)) : b.Loose (.struct index) := by
  have hnew : ¬ a.Has (.struct index) := by
    obtain ⟨d, -, rfl, -⟩ := newStruct_eq_ok h
    exact Nat.lt_irrefl _
  exact (widens_newStruct h).loose_new ha (grows_newStruct h).2 hnew

theorem loose_addCapability {a : Arena} (ha : a.Tree) (cap : Capability) :
    (a.addCapability cap).2.Loose (.capability (a.addCapability cap).1) := by
  have hnew : ¬ a.Has (.capability (a.addCapability cap).1) := Nat.lt_irrefl _
  exact (a.widens_addCapability cap).loose_new ha (a.grows_addCapability cap).2 hnew

/-! ## Writing through a handle to a struct -/

theorem pointer?_putField {a : Arena} {struct : Nat} {index : UInt16} {q p : Pointer} {s i : Nat}
    (h : (a.putField struct index q).pointer? s i = some p) :
    a.pointer? s i = some p ∨ s = struct ∧ i = index.toNat ∧ p = q := by
  obtain ⟨body, hbody, hfield⟩ := Option.bind_eq_some_iff.1 h
  unfold putField at hbody
  rw [List.getElem?_modify] at hbody
  obtain ⟨old, hold, rfl⟩ := Option.map_eq_some_iff.1 hbody
  by_cases hs : struct = s
  · rw [if_pos hs] at hfield
    by_cases hi : index.toNat = i
    · subst hi
      obtain ⟨-, hput⟩ : index.toNat < old.pointers.length ∧ q = p := by
        simpa [List.getElem?_set] using hfield
      exact Or.inr ⟨hs.symm, rfl, hput.symm⟩
    · rw [List.getElem?_set_ne hi] at hfield
      exact Or.inl (Option.bind_eq_some_iff.2 ⟨old, hold, hfield⟩)
  · rw [if_neg hs] at hfield
    exact Or.inl (Option.bind_eq_some_iff.2 ⟨old, hold, hfield⟩)

theorem has_putField {a : Arena} {struct : Nat} {index : UInt16} {q p : Pointer} (h : a.Has p) :
    (a.putField struct index q).Has p :=
  h.mono (Nat.le_of_eq (List.length_modify ..).symm) (Nat.le_refl _)

/-- A root that stands behind a struct becomes a branch of it. -/
theorem Tree.putField {a : Arena} (ha : a.Tree) {struct : Nat} (index : UInt16) {q : Pointer}
    (hq : a.Loose q) (hdeeper : ∀ t, q = .struct t → struct < t) : (a.putField struct index q).Tree := by
  constructor
  case has =>
    intro s i p hp
    rcases pointer?_putField hp with hold | ⟨-, -, rfl⟩
    · exact has_putField (ha.has hold)
    · exact has_putField hq.has
  case deeper =>
    intro s i t ht
    rcases pointer?_putField ht with hold | ⟨rfl, -, hnew⟩
    · exact ha.deeper hold
    · exact hdeeper t hnew.symm
  case once =>
    intro s i s' i' p hp hp' hne
    -- each of the two fields is the one that is written, or holds what it held, and that was not the root
    rcases pointer?_putField hp with hold | ⟨rfl, rfl, rfl⟩ <;>
      rcases pointer?_putField hp' with hold' | ⟨rfl, rfl, hnew⟩
    · exact ha.once hold hold' hne
    · subst hnew
      exact absurd hold (hq.unheld hne s i)
    · exact absurd hold' (hq.unheld hne s' i')
    · exact ⟨rfl, rfl⟩

/-- Every other root stays one. -/
theorem Loose.putField {a : Arena} {p q : Pointer} (hp : a.Loose p) (hne : p ≠ q) (struct : Nat)
    (index : UInt16) : (a.putField struct index q).Loose p where
  has := has_putField hp.has
  unheld hnull s i hheld := by
    rcases pointer?_putField hheld with hold | ⟨-, -, hsame⟩
    · exact hp.unheld hnull s i hold
    · exact hne hsame

theorem lt_of_lt_fieldCount {a : Arena} {struct i : Nat} (h : i < a.fieldCount struct) :
    struct < a.structs.length := by
  unfold fieldCount at h
  split at h
  · next body hbody => exact (List.getElem?_eq_some_iff.1 hbody).1
  · exact absurd h (Nat.not_lt_zero i)

/-- Only a field that exists is pointed to something. -/
theorem lt_of_edit {a : Arena} {struct : Nat} {change : StructEdit} {index : UInt16}
    (hfield : change.field? = some index) {r : Option Nat × Arena} (h : a.edit struct change = .ok r) :
    struct < a.structs.length := by
  cases change with
  | setWord offset value => exact absurd hfield (by simp [StructEdit.field?])
  | setCapability i cap =>
      obtain ⟨b, hset, -⟩ := exists_of_map_eq_ok h
      unfold setCapability at hset
      split at hset
      · next hlt => exact lt_of_lt_fieldCount hlt
      · exact absurd hset (by simp)
  | initStruct i size =>
      obtain ⟨x, hinit, -⟩ := exists_of_map_eq_ok h
      unfold initStruct at hinit
      split at hinit
      · next hlt => exact lt_of_lt_fieldCount hlt
      · exact absurd hinit (by simp)

/-- What has just been added is put into a field: it was nobody's, and is no root that there was before. -/
theorem Widens.spreads_putField {a b : Arena} (h : a.Widens b) {struct : Nat} (index : UInt16) {q : Pointer}
    (hloose : a.Tree → b.Loose q) (hnew : ¬ a.Has q) (hdeeper : ∀ t, q = .struct t → struct < t) :
    a.Spreads (b.putField struct index q) where
  tree ha := (h.spreads.tree ha).putField index (hloose ha) hdeeper
  loose ha p hp := by
    have hne : p ≠ q := by
      rintro rfl
      exact hnew hp.has
    exact (h.spreads.loose ha hp).putField hne struct index

theorem widens_setWord {a b : Arena} {struct : Nat} {offset : UInt16} {value : UInt64}
    (h : a.setWord struct offset value = .ok b) : a.Widens b := by
  obtain ⟨hgrows, -, hpointers⟩ := grows_setWord h
  refine ⟨hgrows.structs, hgrows.caps, fun {s i p} hp => Or.inl ?_⟩
  -- a word is written beside the fields of a struct
  have hsame : ∀ d : Arena, d.pointer? s i =
      ((d.structs.map StructBody.pointers)[s]?).bind fun fields => fields[i]? := by
    intro d
    rw [List.getElem?_map, Option.bind_map]
    rfl
  rw [hsame, ← hpointers, ← hsame]
  exact hp

theorem spreads_edit {a b : Arena} {struct : Nat} {change : StructEdit} {child : Option Nat}
    (h : a.edit struct change = .ok (child, b)) : a.Spreads b := by
  rcases edit_cases h with ⟨offset, value, -, -, hset⟩ | ⟨index, cap, rfl, -, rfl⟩ |
    ⟨index, size, i, d, rfl, -, hnew, rfl⟩
  · exact (widens_setWord hset).spreads
  · exact (a.widens_addCapability cap).spreads_putField index (fun ha => loose_addCapability ha cap)
      (Nat.lt_irrefl _) (fun t ht => absurd ht (by simp))
  · have hstruct := lt_of_edit rfl h
    obtain ⟨-, -, hi, -⟩ := newStruct_eq_ok hnew
    subst hi
    refine (widens_newStruct hnew).spreads_putField index (fun ha => loose_newStruct ha hnew)
      (Nat.lt_irrefl _) fun t ht => ?_
    obtain rfl := Pointer.struct.inj ht
    exact hstruct

theorem spreads_rewritten (a : Arena) (struct : Nat) (change : StructEdit) :
    a.Spreads (a.rewritten struct change) := by
  unfold rewritten
  split
  · next heq => exact spreads_edit heq
  · exact .refl a

end Arena

/-! ## Messages -/

namespace Message

/-- The content of a message is a root. -/
def Rooted (m : Message) : Prop := ∀ p, m.attached? = some p → m.arena.Loose p

/-- What work on a message does to the trees in it: they stay trees, and the content stays a root. -/
structure Spreads (m m' : Message) : Prop where
  arena : m.arena.Spreads m'.arena
  rooted : m.arena.Tree → m.Rooted → m'.Rooted

theorem Spreads.refl (m : Message) : m.Spreads m := ⟨.refl _, fun _ h => h⟩

theorem Spreads.trans {m m' m'' : Message} (h : m.Spreads m') (h' : m'.Spreads m'') : m.Spreads m'' :=
  ⟨h.arena.trans h'.arena, fun ha hm => h'.rooted (h.arena.tree ha) (h.rooted ha hm)⟩

/-- The content of a message is what it was, or another root. -/
theorem spreads_of_content {m m' : Message} (harena : m.arena.Spreads m'.arena)
    (hcontent : ∀ p, m'.attached? = some p →
      m.attached? = some p ∨ (m.arena.Tree → m'.arena.Loose p)) : m.Spreads m' where
  arena := harena
  rooted ha hm p hp := (hcontent p hp).elim (fun hold => harena.loose ha (hm p hold)) fun hloose => hloose ha

theorem spreads_of_arena {m : Message} {a : Arena} (h : m.arena.Spreads a) :
    m.Spreads { m with arena := a } :=
  spreads_of_content h fun _ hp => Or.inl hp

/-- The results point to a root, or to what they pointed to. -/
theorem spreads_of_results {m : Message} {a : Arena} {ret : Return} {payload : Payload}
    (harena : m.arena.Spreads a)
    (hcontent : m.attached? = some payload.content ∨ (m.arena.Tree → a.Loose payload.content)) :
    m.Spreads { arena := a, root := some (.return { ret with outcome := .results payload }) } :=
  spreads_of_content harena fun _ hp => Option.some.inj hp ▸ hcontent

/-- Every move that work on a message is made of. -/
theorem spreads_rule : SealingRule Spreads where
  refl := .refl
  trans h h' := h.trans h'
  charges h := spreads_of_arena (Arena.widens_of_charge h).spreads
  adds m cap := spreads_of_arena (m.arena.widens_addCapability cap).spreads
  drops {m ret outcome} _ hout := by
    rcases hout with rfl | ⟨exc, rfl⟩
    · exact spreads_of_results (.refl _) (Or.inr fun _ => m.arena.loose_null)
    · exact spreads_of_content (.refl _) fun p hp => absurd hp (by simp [attached?, Root.content?])
  structs _ _ hnew :=
    spreads_of_results (Arena.widens_newStruct hnew).spreads (Or.inr fun ha => Arena.loose_newStruct ha hnew)
  boots {m _} cap _ :=
    spreads_of_results (m.arena.widens_addCapability cap).spreads
      (Or.inr fun ha => Arena.loose_addCapability ha cap)
  tables _ hroot hout := by
    have hsame := attached?_of_root hroot hout
    exact spreads_of_results (.refl _) (Or.inl hsame)
  describes _ hroot hout := by
    have hsame := attached?_of_root hroot hout
    exact spreads_of_results (.refl _) (Or.inl hsame)

theorem spreads_startReturn {m m' : Message} {id : AnswerId} (h : m.startReturn id = .ok m') :
    m.Spreads m' := by
  obtain ⟨a, ha, rfl⟩ := startReturn_eq_ok h
  exact spreads_of_content (Arena.widens_of_charge ha).spreads
    fun p hp => absurd hp (by simp [attached?, Root.content?])

theorem spreads_writeAbort {m m' : Message} {e : Error} (h : (m.writeAbort e).value = .ok m') : m.Spreads m' := by
  obtain ⟨a, ha, rfl⟩ := writeAbort_eq_ok h
  exact spreads_of_content (Arena.widens_of_charge ha).spreads
    fun p hp => absurd hp (by simp [attached?, Root.content?])

end Message

theorem Deed.spreads_rework (d : Deed) (m : Message) : m.Spreads (d.rework m) :=
  Message.spreads_rule.rework (fun m struct change =>
    Message.spreads_of_arena (m.arena.spreads_rewritten struct change)) d m

end Callee
