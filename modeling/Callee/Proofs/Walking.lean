import Callee.Message.Path

set_option autoImplicit false

/-! # Paths and fields

A path is followed in one go, but what it comes to can be said field by field: steps that stay where they are
play no part, and the others take fields of structs in turn (`Arena.Threads`) until one of them has no struct to
take its field of. What stands there then, a null pointer or a capability, or what stands at the end if none
does, decides about the path (`Arena.Comes`), and so about the call that is addressed by it
(`Arena.stepwise`). -/

namespace Callee

namespace PathStep

/-- The field that a step goes on to, if it goes on. -/
def field? : PathStep → Option UInt16
  | stay => none
  | field index => some index

/-- The fields that a path names, in turn. -/
def fields (path : List PathStep) : List UInt16 := path.filterMap field?

@[simp] theorem fields_nil : fields [] = [] := rfl

@[simp] theorem fields_stay (path : List PathStep) : fields (.stay :: path) = fields path := rfl

@[simp] theorem fields_field (index : UInt16) (path : List PathStep) :
    fields (.field index :: path) = index :: fields path := rfl

theorem fields_append (path more : List PathStep) : fields (path ++ more) = fields path ++ fields more :=
  List.filterMap_append

end PathStep

namespace Arena

variable {a : Arena} {p q : Pointer}

/-! ## Fields in turn -/

/-- Taking fields in turn leads from one pointer to another, and every field is taken of a struct that exists. -/
inductive Threads (a : Arena) : Pointer → List UInt16 → Pointer → Prop
  | nil (p : Pointer) : Threads a p [] p
  | cons {s : Nat} {index : UInt16} {rest : List UInt16} {q : Pointer} (found : s < a.structs.length)
      (goes : Threads a (a.field s index) rest q) : Threads a (.struct s) (index :: rest) q

/-- No field can be taken of a pointer, for want of a struct. -/
def Stops (a : Arena) : Pointer → Prop
  | .struct s => a.structs.length ≤ s
  | _ => True

theorem Threads.snoc {indices : List UInt16} {s : Nat} (h : a.Threads p indices (.struct s))
    (hs : s < a.structs.length) (index : UInt16) : a.Threads p (indices ++ [index]) (a.field s index) := by
  generalize hq : Pointer.struct s = q at h
  induction h with
  | nil p =>
      subst hq
      exact .cons hs (.nil _)
  | cons hexists _ ih => exact .cons hexists (ih hq)

/-- Fields can be taken to the last one, or up to where there is no struct. -/
theorem threads_or_stops (a : Arena) (p : Pointer) (indices : List UInt16) :
    (∃ q, a.Threads p indices q) ∨
      ∃ before index after q, indices = before ++ index :: after ∧ a.Threads p before q ∧ a.Stops q := by
  induction indices generalizing p with
  | nil => exact Or.inl ⟨p, .nil p⟩
  | cons index rest ih =>
      by_cases hstops : a.Stops p
      · exact Or.inr ⟨[], index, rest, p, rfl, .nil p, hstops⟩
      · cases p with
        | null | capability i => exact absurd trivial hstops
        | struct s =>
            have hexists : s < a.structs.length := Nat.lt_of_not_le hstops
            rcases ih (a.field s index) with ⟨q, hthreads⟩ | ⟨before, i, after, q, rfl, hthreads, hq⟩
            · exact Or.inl ⟨q, .cons hexists hthreads⟩
            · exact Or.inr ⟨index :: before, i, after, q, rfl, .cons hexists hthreads, hq⟩

/-- Outside the pointer section of a struct stand null pointers. -/
theorem field_of_fieldCount_le {s : Nat} {index : UInt16} (h : a.fieldCount s ≤ index.toNat) :
    a.field s index = .null := by
  unfold field
  unfold fieldCount at h
  cases hbody : a.structs[s]? with
  | none => rfl
  | some body =>
      simp only [hbody] at h
      simp only [List.getD_eq_getElem?_getD, List.getElem?_eq_none h, Option.getD_none]

/-! ## Following a path -/

/-- Steps that stay where they are can be left out. -/
theorem walk_fields (a : Arena) (p : Pointer) (path : List PathStep) :
    a.walk p ((PathStep.fields path).map .field) = a.walk p path := by
  induction path generalizing p with
  | nil => rfl
  | cons step rest ih =>
      cases step with
      | stay => exact ih p
      | field index =>
          simp only [PathStep.fields_field, List.map_cons, walk]
          cases a.follow p (.field index) with
          | ok q => exact ih q
          | error e => rfl

/-- After the fields that it has taken a path goes on from where they lead. -/
theorem Threads.walk_append {before : List UInt16} (h : a.Threads p before q) (after : List UInt16) :
    a.walk p ((before ++ after).map .field) = a.walk q (after.map .field) := by
  induction h with
  | nil p => rfl
  | cons hexists _ ih =>
      simp only [List.cons_append, List.map_cons, walk, follow, if_pos hexists]
      exact ih

/-- What a path of fields comes to. -/
inductive Comes (a : Arena) (p : Pointer) (indices : List UInt16) : Except Error Pointer → Prop
  /-- All fields are taken. -/
  | ends {q : Pointer} (threads : a.Threads p indices q) : Comes a p indices (.ok q)
  /-- A null pointer is met, and the path stays there. -/
  | null {before after : List UInt16} (split : indices = before ++ after) (threads : a.Threads p before .null) :
      Comes a p indices (.ok .null)
  /-- The next field would have to be taken of a capability. -/
  | capability {before after : List UInt16} {index : UInt16} {i : Nat} (split : indices = before ++ index :: after)
      (threads : a.Threads p before (.capability i)) : Comes a p indices (.error .throughCapability)
  /-- The next field would have to be taken of a struct that does not exist. -/
  | missing {before after : List UInt16} {index : UInt16} {s : Nat} (split : indices = before ++ index :: after)
      (threads : a.Threads p before (.struct s)) (absent : a.structs.length ≤ s) :
      Comes a p indices (.error (.missingStruct s))

theorem Comes.walk {indices : List UInt16} {r : Except Error Pointer} (h : a.Comes p indices r) :
    a.walk p (indices.map .field) = r := by
  cases h with
  | ends threads =>
      have hwalk := threads.walk_append []
      rwa [List.append_nil] at hwalk
  | null split threads => rw [split, threads.walk_append, walk_null]
  | capability split threads =>
      rw [split, threads.walk_append]
      rfl
  | missing split threads absent =>
      rw [split, threads.walk_append]
      simp only [List.map_cons, Arena.walk, follow, if_neg (Nat.not_lt_of_le absent)]

theorem exists_comes (a : Arena) (p : Pointer) (indices : List UInt16) : ∃ r, a.Comes p indices r := by
  rcases a.threads_or_stops p indices with ⟨q, hthreads⟩ | ⟨before, index, after, q, hsplit, hthreads, hstops⟩
  · exact ⟨_, .ends hthreads⟩
  · cases q with
    | null => exact ⟨_, .null hsplit hthreads⟩
    | capability i => exact ⟨_, .capability hsplit hthreads⟩
    | struct s => exact ⟨_, .missing hsplit hthreads hstops⟩

/-- Field by field a path comes to just what it is followed to. -/
theorem comes_iff {path : List PathStep} {r : Except Error Pointer} :
    a.Comes p (PathStep.fields path) r ↔ a.walk p path = r := by
  constructor
  · intro h
    rw [← walk_fields]
    exact h.walk
  · rintro rfl
    obtain ⟨r, hr⟩ := a.exists_comes p (PathStep.fields path)
    rw [← walk_fields, hr.walk]
    exact hr

theorem walk_eq_capability_iff {path : List PathStep} {i : Nat} :
    a.walk p path = .ok (.capability i) ↔ a.Threads p (PathStep.fields path) (.capability i) := by
  rw [← comes_iff]
  constructor
  · intro h
    cases h with
    | ends threads => exact threads
  · exact .ends

theorem walk_eq_null_iff {path : List PathStep} : a.walk p path = .ok .null ↔
    ∃ before after, PathStep.fields path = before ++ after ∧ a.Threads p before .null := by
  rw [← comes_iff]
  constructor
  · intro h
    cases h with
    | ends threads => exact ⟨_, [], (List.append_nil _).symm, threads⟩
    | null split threads => exact ⟨_, _, split, threads⟩
  · rintro ⟨before, after, hsplit, hthreads⟩
    exact .null hsplit hthreads

theorem walk_eq_throughCapability_iff {path : List PathStep} : a.walk p path = .error .throughCapability ↔
    ∃ before index after i, PathStep.fields path = before ++ index :: after ∧
      a.Threads p before (.capability i) := by
  rw [← comes_iff]
  constructor
  · intro h
    cases h with
    | capability split threads => exact ⟨_, _, _, _, split, threads⟩
  · rintro ⟨before, index, after, i, hsplit, hthreads⟩
    exact .capability hsplit hthreads

theorem walk_eq_missingStruct_iff {path : List PathStep} {s : Nat} : a.walk p path = .error (.missingStruct s) ↔
    ∃ before index after, PathStep.fields path = before ++ index :: after ∧ a.Threads p before (.struct s) ∧
      a.structs.length ≤ s := by
  rw [← comes_iff]
  constructor
  · intro h
    cases h with
    | missing split threads absent => exact ⟨_, _, _, split, threads, absent⟩
  · rintro ⟨before, index, after, hsplit, hthreads, habsent⟩
    exact .missing hsplit hthreads habsent

/-- A path itself fails at a capability or at a struct that does not exist, and in no other way. -/
theorem error_of_walk {path : List PathStep} {e : Error} (h : a.walk p path = .error e) :
    e = .throughCapability ∨ ∃ s, e = .missingStruct s := by
  cases comes_iff.2 h with
  | capability => exact Or.inl rfl
  | missing => exact Or.inr ⟨_, rfl⟩

/-! ## Resolving a path -/

theorem target_eq_ok_iff {cap : Capability} :
    a.target q = .ok cap ↔ ∃ i, q = .capability i ∧ a.capability? i = some cap := by
  cases q with
  | null | struct s => simp [target]
  | capability i => cases hcap : a.capability? i <;> simp [target, hcap]

theorem target_eq_nullTarget_iff : a.target q = .error .nullTarget ↔ q = .null := by
  cases q with
  | null | struct s => simp [target]
  | capability i => cases hcap : a.capability? i <;> simp [target, hcap]

theorem resolve_eq_ok_iff {path : List PathStep} {cap : Capability} :
    a.resolve p path = .ok cap ↔ ∃ q, a.walk p path = .ok q ∧ a.target q = .ok cap := by
  unfold resolve
  cases a.walk p path <;> simp

theorem resolve_eq_error_iff {path : List PathStep} {e : Error} : a.resolve p path = .error e ↔
    a.walk p path = .error e ∨ ∃ q, a.walk p path = .ok q ∧ a.target q = .error e := by
  unfold resolve
  cases a.walk p path <;> simp

theorem error_of_target {e : Error} (h : a.target q = .error e) :
    e = .nullTarget ∨ e = .structTarget ∨ ∃ i, e = .emptySlot i := by
  cases q with
  | null => exact Or.inl (Except.error.inj h).symm
  | struct s => exact Or.inr (Or.inl (Except.error.inj h).symm)
  | capability i =>
      cases hcap : a.capability? i with
      | some cap => exact absurd h (by simp [target, hcap])
      | none =>
          simp only [target, hcap] at h
          exact Or.inr (Or.inr ⟨i, (Except.error.inj h).symm⟩)

/-- Every field that holds a struct holds one that exists. -/
def Ranged (a : Arena) : Prop := ∀ s index t, a.field s index = .struct t → t < a.structs.length

theorem Ranged.struct_lt (ha : a.Ranged) {indices : List UInt16} {t : Nat} (h : a.Threads p indices (.struct t))
    (hp : ∀ s, p = .struct s → s < a.structs.length) : t < a.structs.length := by
  generalize hq : Pointer.struct t = q at h
  induction h with
  | nil p => exact hp t hq.symm
  | @cons s index _ _ _ _ ih => exact ih (ha s index) hq

/-- What a call that is addressed by a path comes to, said field by field. -/
structure Stepwise (a : Arena) (content : Pointer) (path : List PathStep) : Prop where
  /-- Steps that stay where they are can be put in and left out. -/
  stays : ∀ before after, path = before ++ after →
    a.resolve content (before ++ .stay :: after) = a.resolve content path
  fields : ∀ path', PathStep.fields path' = PathStep.fields path → a.resolve content path' = a.resolve content path
  /-- It is for a capability exactly if the fields lead through structs to a slot that holds it. -/
  found : ∀ cap, a.resolve content path = .ok cap ↔
    ∃ i, a.Threads content (PathStep.fields path) (.capability i) ∧ a.capability? i = some cap
  /-- It goes through a capability exactly if some field is to be taken of one. -/
  through : a.resolve content path = .error .throughCapability ↔ ∃ before index after i,
    PathStep.fields path = before ++ index :: after ∧ a.Threads content before (.capability i)
  /-- It ends nowhere exactly if a null pointer is met, whatever follows. -/
  nowhere : a.resolve content path = .error .nullTarget ↔ ∃ before after,
    PathStep.fields path = before ++ after ∧ a.Threads content before .null
  /-- There the path stays. -/
  null : ∀ before after, PathStep.fields path = before ++ after → a.Threads content before .null →
    a.walk content path = .ok .null
  /-- That is so where a field lies outside the pointer section of its struct. -/
  outside : ∀ before index after s, PathStep.fields path = before ++ index :: after →
    a.Threads content before (.struct s) → s < a.structs.length → a.fieldCount s ≤ index.toNat →
      a.walk content path = .ok .null ∧ a.resolve content path = .error .nullTarget
  /-- Nothing is missing where all pointers to structs are in range. -/
  ranged : a.Ranged → (∀ s, content = .struct s → s < a.structs.length) →
    ∀ s, a.resolve content path ≠ .error (.missingStruct s)

theorem resolve_of_fields (a : Arena) (p : Pointer) {path path' : List PathStep}
    (h : PathStep.fields path' = PathStep.fields path) : a.resolve p path' = a.resolve p path := by
  unfold resolve
  rw [← walk_fields a p path', h, walk_fields]

theorem resolve_eq_nullTarget_iff {path : List PathStep} :
    a.resolve p path = .error .nullTarget ↔ a.walk p path = .ok .null := by
  rw [resolve_eq_error_iff]
  constructor
  · rintro (hwalk | ⟨q, hwalk, htarget⟩)
    · rcases error_of_walk hwalk with he | ⟨s, he⟩ <;> exact absurd he (by simp)
    · rw [hwalk, target_eq_nullTarget_iff.1 htarget]
  · exact fun hwalk => Or.inr ⟨.null, hwalk, rfl⟩

/-- What `resolve` fails with on the way is what the path fails with. -/
theorem resolve_eq_error_iff_walk {path : List PathStep} {e : Error}
    (he : e = .throughCapability ∨ ∃ s, e = .missingStruct s) :
    a.resolve p path = .error e ↔ a.walk p path = .error e := by
  rw [resolve_eq_error_iff]
  refine ⟨fun h => h.resolve_right ?_, Or.inl⟩
  rintro ⟨q, -, htarget⟩
  rcases he with rfl | ⟨s, rfl⟩ <;> rcases error_of_target htarget with h | h | ⟨i, h⟩ <;> exact absurd h (by simp)

/-- Wherever the content points, and whatever the path. -/
theorem stepwise (a : Arena) (content : Pointer) (path : List PathStep) : a.Stepwise content path := by
  have hnull : ∀ before after, PathStep.fields path = before ++ after → a.Threads content before .null →
      a.walk content path = .ok .null := fun before after hsplit hthreads =>
    walk_eq_null_iff.2 ⟨before, after, hsplit, hthreads⟩
  constructor
  case stays =>
    rintro before after rfl
    exact a.resolve_of_fields content (by simp only [PathStep.fields_append, PathStep.fields_stay])
  case fields => exact fun path' h => a.resolve_of_fields content h
  case found =>
    intro cap
    simp only [resolve_eq_ok_iff, target_eq_ok_iff, ← walk_eq_capability_iff]
    constructor
    · rintro ⟨q, hwalk, i, rfl, hcap⟩
      exact ⟨i, hwalk, hcap⟩
    · rintro ⟨i, hwalk, hcap⟩
      exact ⟨_, hwalk, i, rfl, hcap⟩
  case through => rw [resolve_eq_error_iff_walk (Or.inl rfl), walk_eq_throughCapability_iff]
  case nowhere => rw [resolve_eq_nullTarget_iff, walk_eq_null_iff]
  case null => exact hnull
  case outside =>
    intro before index after s hsplit hthreads hs houtside
    have hmeets : a.Threads content (before ++ [index]) .null :=
      field_of_fieldCount_le houtside ▸ hthreads.snoc hs index
    have hwalk := hnull (before ++ [index]) after (by simp [hsplit]) hmeets
    exact ⟨hwalk, resolve_eq_nullTarget_iff.2 hwalk⟩
  case ranged =>
    intro hranged hcontent s hmissing
    rw [resolve_eq_error_iff_walk (Or.inr ⟨s, rfl⟩), walk_eq_missingStruct_iff] at hmissing
    obtain ⟨before, index, after, -, hthreads, habsent⟩ := hmissing
    exact absurd (hranged.struct_lt hthreads hcontent) (Nat.not_lt_of_le habsent)

/-- Of two fields of a struct the first leads to a capability, and there is no third. -/
example :
    let a : Arena := { structs := [⟨[], [.capability 0, .struct 0]⟩], caps := [some ⟨"door", 5⟩] }
    a.resolve (.struct 0) [.stay, .field 1, .stay, .field 0] = .ok ⟨"door", 5⟩ ∧
      a.resolve (.struct 0) [.field 0, .stay] = .ok ⟨"door", 5⟩ ∧
      a.resolve (.struct 0) [.field 0, .stay, .field 0] = .error .throughCapability ∧
      a.resolve (.struct 0) [.field 2, .field 0] = .error .nullTarget :=
  ⟨rfl, rfl, rfl, rfl⟩

end Arena

end Callee
