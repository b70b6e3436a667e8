import Callee.Message.Sharing
import Callee.Proofs.Marking

set_option autoImplicit false

/-! # What is read through handles

Any number of handles may be to one struct, and the structs of a message all stand in one arena that grows while they
are written. Still each struct is a thing of its own: what is read through a handle is what was stored last there,
through that handle or another one to the same struct (`Workpiece.readsBack`). A step comes down to a step on the
message (`Workpiece.Does`), and leaves its marks there. -/

namespace Callee

/-- A write is to a word or a field of a struct of the given size. -/
def StructEdit.Within (size : ObjectSize) : StructEdit → Prop
  | setWord offset _ => offset < size.data
  | setCapability index _ => index < size.pointers
  | initStruct index _ => index < size.pointers

theorem Arena.Reflects.outside?_eq_none_iff {a : Arena} {j : List Mark} (h : a.Reflects j) {s : Nat}
    {size : ObjectSize} (hsize : (Mark.sizes j)[s]? = some size) (change : StructEdit) :
    a.outside? s change = none ↔ change.Within size := by
  have hwords : a.wordCount s = size.data.toNat := by simp [h.wordCount_eq, hsize]
  have hfields : a.fieldCount s = size.pointers.toNat := by simp [h.fieldCount_eq, hsize]
  cases change <;> simp [outside?, StructEdit.Within, hwords, hfields, UInt16.lt_iff_toNat_lt]

/-- A write through a handle is carried out if it is inside its struct and there is room. -/
theorem Message.step_edit_done_iff {m : Message} {s : Nat} {change : StructEdit} :
    (∃ index, (m.step (.edit s change)).1 = .done index) ↔
      m.arena.outside? s change = none ∧ m.HasRoomFor (.edit s change) := by
  have hfits : ¬ (MessageStep.edit s change).Overflows := not_overflows (s := .edit s change) trivial
  constructor
  · rintro ⟨index, hdone⟩
    have refused {e : Error} (h : m.step (.edit s change) = (.failed e, m)) : False := by
      rw [h] at hdone
      exact absurd hdone (by simp)
    cases hout : m.arena.outside? s change with
    | some e => exact (refused (step_of_objection rfl hout)).elim
    | none =>
        refine ⟨rfl, (m.hasRoomFor_or_overruns _).resolve_right ?_⟩
        rintro ⟨limit, hover⟩
        exact refused (step_of_unpaid hfits (Or.inr hout) hover.pay)
  · rintro ⟨hin, hroom⟩
    obtain ⟨index, hdone, -⟩ := step_of_paid hfits hin hroom.pay
    exact ⟨index, hdone⟩

/-- A step that leaves no marks has allocated nothing. -/
theorem MessageStep.allocated?_of_unmarked {s : MessageStep} {done : Ending (Option Nat)}
    (h : (∀ index, done ≠ .done index) ∨ ∀ j, Mark.ofStep j s = []) : s.allocated? done = none := by
  cases done with
  | done made =>
      have hplain := (h.resolve_left fun hundone => hundone made rfl) []
      cases s with
      | newStruct size => exact absurd hplain (by simp [Mark.ofStep])
      | edit t change => cases change <;> exact absurd hplain (by simp [Mark.ofStep])
      | _ => rfl
  | failed e => cases s <;> rfl
  | panicked => cases s <;> rfl

/-- A struct that a step has allocated stands behind all others, and is the only one that is new. -/
theorem Message.allocated_of_step (m : Message) (s : MessageStep) :
    (∀ i, s.allocated? (m.step s).1 = some i → i = m.arena.structs.length) ∧
      (m.step s).2.arena.structs.length =
        m.arena.structs.length + (s.allocated? (m.step s).1).toList.length := by
  cases m.storing s with
  | nothing unmarked structs caps =>
      have hnone : s.allocated? (m.step s).1 = none := MessageStep.allocated?_of_unmarked unmarked
      simp [hnone, structs]
  | struct isStep made step =>
      subst isStep
      obtain ⟨d, -, rfl, rfl⟩ := Arena.newStruct_eq_ok made
      simp [step, MessageStep.allocated?]
  | capability isStep =>
      subst isStep
      exact ⟨by simp [MessageStep.allocated?], rfl⟩
  | write isStep edited step =>
      subst isStep
      rw [step]
      exact Arena.allocated_of_edit edited

namespace Workpiece

variable {w : Workpiece} {j : List Mark} {s : SharedStep} {t : MessageStep}

/-! ## Steps on the message -/

/-- The step on the message that a step comes down to. -/
def reaches? (w : Workpiece) : SharedStep → Option MessageStep
  | .build s => some s
  | .share _ => none
  | .write handle change => w.handles[handle]?.map fun ref => .edit ref.index change

/-- The marks after one more step. A step that is not done leaves none. -/
def record (w : Workpiece) (j : List Mark) (s : SharedStep) : List Mark :=
  match w.reaches? s, (w.step s).1 with
  | some t, .done _ => j ++ Mark.ofStep j t
  | _, _ => j

/-- The marks after a sequence of steps. -/
def journal (w : Workpiece) (j : List Mark) : List SharedStep → List Mark
  | [] => j
  | s :: rest => (w.step s).2.journal (w.record j s) rest

/-- What a step that comes down to a step on the message does. -/
structure Does (w : Workpiece) (t : MessageStep) (done : Ending Unit) (w' : Workpiece) : Prop where
  done : done = (w.message.step t).1.map fun _ => ()
  message : w'.message = (w.message.step t).2
  handles : w'.handles = w.handles ++
    ((t.allocated? (w.message.step t).1).map (StructRef.mk w.envelope.arena)).toList
  envelope : w'.envelope.arena = w.envelope.arena
  /-- Other messages in the store are left alone. -/
  others : ∀ id, id ≠ w.envelope.arena → w'.messages.arena id = w.messages.arena id

/-- The message holds what its marks say, and there are handles to its structs and to nothing else. -/
structure Tracks (w : Workpiece) (j : List Mark) : Prop where
  reflects : w.message.arena.Reflects j
  sound : w.message.arena.Sound
  live : ∀ ref, ref ∈ w.handles ↔ ref.arena = w.envelope.arena ∧ ref.index < (Mark.sizes j).length

theorem Tracks.does (h : w.Tracks j) (hs : w.reaches? s = some t) : w.Does t (w.step s).1 (w.step s).2 := by
  cases s with
  | build u =>
      obtain rfl : u = t := Option.some.inj hs
      exact ⟨rfl, w.messages.message_put w.envelope _, rfl, rfl,
        fun id hid => w.messages.arena_putArena_of_ne hid _⟩
  | share handle => exact absurd hs (by simp [reaches?])
  | write handle change =>
      obtain ⟨ref, href, rfl⟩ := Option.map_eq_some_iff.1 hs
      obtain ⟨harena, -⟩ := (h.live ref).1 (List.mem_of_getElem? href)
      have hmessage : w.messages.arena ref.arena = w.message.arena := by rw [harena]; rfl
      cases hedit : w.message.arena.edit ref.index change with
      | error e =>
          have hstep : w.step (.write handle change) = (.failed e, w) := by
            simp only [step, href, MessageStore.edit, hmessage, hedit]
          have hdone : w.message.step (.edit ref.index change) = (.failed e, w.message) := by
            simp only [Message.step, hedit]
          rw [hstep]
          constructor <;> simp [hdone, Ending.map, MessageStep.allocated?]
      | ok written =>
          obtain ⟨child, a⟩ := written
          have hwritten : w.messages.edit ref change =
              (.ok (child.map (StructRef.mk w.envelope.arena)), w.messages.putArena w.envelope.arena a) := by
            simp only [MessageStore.edit, hmessage, hedit]
            rw [harena]
          have hstep : w.step (.write handle change) = (.done (), { w with
              messages := w.messages.putArena w.envelope.arena a
              handles := w.handles ++ (child.map (StructRef.mk w.envelope.arena)).toList }) := by
            simp only [step, href, hwritten]
          have hdone : w.message.step (.edit ref.index change) =
              (.done child, { w.message with arena := a }) := by
            simp only [Message.step, hedit]
          rw [hstep]
          constructor
          case message =>
            rw [hdone]
            exact congrArg (Message.mk · w.envelope.root) (w.messages.arena_putArena_self _ a)
          case others => exact fun id hid => w.messages.arena_putArena_of_ne hid a
          all_goals simp [hdone, Ending.map, MessageStep.allocated?]

/-- What a step that does not come down to a step on the message does: it makes one more handle at most. -/
theorem step_of_reaches_none (hs : w.reaches? s = none) : (w.step s).1 = .done () ∧
    ∃ more, (∀ ref ∈ more, ref ∈ w.handles) ∧ (w.step s).2 = { w with handles := w.handles ++ more } := by
  cases s with
  | build u => exact absurd hs (by simp [reaches?])
  | share handle =>
      refine ⟨rfl, w.handles[handle]?.toList, fun ref href => ?_, rfl⟩
      exact List.mem_of_getElem? (Option.mem_toList.1 href)
  | write handle change =>
      have hnone : w.handles[handle]? = none := Option.map_eq_none_iff.1 hs
      refine ⟨by simp only [step, hnone], [], by simp, ?_⟩
      simp only [step, hnone, List.append_nil]

/-! ## Marks of steps -/

theorem record_of_reaches_none (j : List Mark) (hs : w.reaches? s = none) : w.record j s = j := by
  unfold record
  rw [hs]

theorem prefix_record (w : Workpiece) (j : List Mark) (s : SharedStep) : j <+: w.record j s := by
  unfold record
  split
  · exact List.prefix_append _ _
  · exact List.prefix_rfl

theorem Tracks.record_eq (h : w.Tracks j) (hs : w.reaches? s = some t) : w.record j s = w.message.record j t := by
  unfold record Message.record
  rw [hs, (h.does hs).done]
  cases (w.message.step t).1 <;> rfl

/-- A new handle is to a struct of a handle that there was, or to one that is new itself. -/
theorem Tracks.mem_handles_step (h : w.Tracks j) {ref : StructRef} (href : ref ∈ (w.step s).2.handles) :
    ref ∈ w.handles ∨ ref = ⟨w.envelope.arena, (Mark.sizes j).length⟩ := by
  cases hs : w.reaches? s with
  | none =>
      obtain ⟨-, more, hmore, hstep⟩ := step_of_reaches_none hs
      rw [hstep] at href
      exact Or.inl ((List.mem_append.1 href).elim id (hmore ref))
  | some t =>
      rw [(h.does hs).handles, List.mem_append] at href
      refine href.imp id fun hnew => ?_
      obtain ⟨i, hi, rfl⟩ := Option.map_eq_some_iff.1 (Option.mem_toList.1 hnew)
      have hlast := (w.message.allocated_of_step t).1 i hi
      exact congrArg _ (hlast.trans h.reflects.length_structs)

theorem Tracks.step (h : w.Tracks j) (s : SharedStep) : (w.step s).2.Tracks (w.record j s) := by
  cases hs : w.reaches? s with
  | none =>
      obtain ⟨-, more, hmore, hstep⟩ := step_of_reaches_none hs
      rw [record_of_reaches_none j hs, hstep]
      refine ⟨h.reflects, h.sound, fun ref => Iff.trans ?_ (h.live ref)⟩
      exact List.mem_append.trans ⟨fun href => href.elim id (hmore ref), Or.inl⟩
  | some t =>
      have hdoes := h.does hs
      have hreflects : (w.step s).2.message.arena.Reflects (w.record j s) := by
        rw [hdoes.message, h.record_eq hs]
        exact Message.reflects_step h.reflects t
      have hsound : (w.step s).2.message.arena.Sound := by
        rw [hdoes.message]
        exact Message.sound_step h.sound t
      refine ⟨hreflects, hsound, fun ref => ?_⟩
      obtain ⟨hlast, hlength⟩ := w.message.allocated_of_step t
      rw [hdoes.envelope, ← hreflects.length_structs, hdoes.message, hlength, hdoes.handles, List.mem_append,
        h.live, ← h.reflects.length_structs]
      obtain ⟨id, index⟩ := ref
      cases hmade : t.allocated? (w.message.step t).1 with
      | none => simp
      | some i =>
          -- what is new stands behind what there was, so that a bound goes up by one
          obtain rfl := hlast i hmade
          have hnew : StructRef.mk id index ∈
              ((some w.message.arena.structs.length).map (StructRef.mk w.envelope.arena)).toList ↔
              id = w.envelope.arena ∧ index = w.message.arena.structs.length := by
            simp
          rw [hnew, ← and_or_left, ← Nat.lt_succ_iff_lt_or_eq]
          rfl

theorem tracks_after {w : Workpiece} {j : List Mark} (h : w.Tracks j) (steps : List SharedStep) :
    (w.after steps).Tracks (w.journal j steps) := by
  induction steps generalizing w j with
  | nil => exact h
  | cons s rest ih => exact ih (h.step s)

theorem tracks_start (messages : MessageStore) (wordLimit : Option Nat) : (start messages wordLimit).Tracks [] := by
  have hempty : (start messages wordLimit).message.arena = { wordLimit := wordLimit } := by
    simp [start, message, MessageStore.message, MessageStore.create, MessageStore.arena]
  refine ⟨?_, ?_, fun ref => by simp [start, Mark.sizes]⟩
  · rw [hempty]
    exact Arena.reflects_empty wordLimit
  · rw [hempty]
    exact Arena.sound_empty wordLimit

/-! ## Reading -/

theorem Tracks.word_eq (h : w.Tracks j) {ref : StructRef} (href : ref ∈ w.handles) (offset : UInt16) :
    w.word ref offset = (Mark.lastWord j ref.index offset).getD 0 := by
  unfold word
  rw [((h.live ref).1 href).1]
  exact h.reflects.word_eq ref.index offset

theorem Tracks.field_eq (h : w.Tracks j) {ref : StructRef} (href : ref ∈ w.handles) (index : UInt16) :
    w.field ref index = (Mark.lastField j ref.index index).getD .null := by
  unfold field
  rw [((h.live ref).1 href).1]
  exact h.reflects.field_eq ref.index index

/-- A field leads to a struct or a slot of the message that is there. -/
theorem Tracks.has_field (h : w.Tracks j) {ref : StructRef} (href : ref ∈ w.handles) (index : UInt16) :
    w.message.arena.Has (w.field ref index) := by
  unfold field
  rw [((h.live ref).1 href).1]
  exact h.sound.has_field ref.index index

/-! ## What a step leaves alone -/

/-- The struct that a step writes into. -/
def target? (w : Workpiece) (s : SharedStep) : Option Nat := (w.reaches? s).bind MessageStep.target?

theorem Tracks.getElem?_step (h : w.Tracks j) {i : Nat} (hi : i < (Mark.sizes j).length)
    (hne : w.target? s ≠ some i) :
    (w.step s).2.message.arena.structs[i]? = w.message.arena.structs[i]? := by
  cases hs : w.reaches? s with
  | none =>
      obtain ⟨-, more, -, hstep⟩ := step_of_reaches_none hs
      rw [hstep]
      rfl
  | some t =>
      rw [(h.does hs).message]
      refine Message.getElem?_step_of_ne (h.reflects.length_structs ▸ hi) fun ht => hne ?_
      rw [target?, hs]
      exact ht

theorem Tracks.caps_step (h : w.Tracks j) (s : SharedStep) :
    w.message.arena.caps <+: (w.step s).2.message.arena.caps := by
  rw [h.reflects.caps, (h.step s).reflects.caps]
  exact ((w.prefix_record j s).filterMap _).map _

theorem Tracks.step_of_undone (h : w.Tracks j) (hs : (w.step s).1 ≠ .done ()) :
    (w.step s).2.message.arena.structs = w.message.arena.structs ∧
      (w.step s).2.message.arena.caps = w.message.arena.caps ∧ (w.step s).2.handles = w.handles := by
  cases hreach : w.reaches? s with
  | none => exact absurd (step_of_reaches_none hreach).1 hs
  | some t =>
      have hdoes := h.does hreach
      have hundone : ∀ index, (w.message.step t).1 ≠ .done index := fun index hdone =>
        hs (by rw [hdoes.done, hdone]; rfl)
      obtain ⟨hstructs, hcaps⟩ := Message.contents_of_undone hundone
      refine ⟨hdoes.message ▸ hstructs, hdoes.message ▸ hcaps, ?_⟩
      rw [hdoes.handles, MessageStep.allocated?_of_unmarked (Or.inl hundone)]
      exact List.append_nil _

theorem Tracks.arena_step_of_ne (h : w.Tracks j) (s : SharedStep) {id : ArenaId} (hid : id ≠ w.envelope.arena) :
    (w.step s).2.messages.arena id = w.messages.arena id := by
  cases hs : w.reaches? s with
  | none =>
      obtain ⟨-, more, -, hstep⟩ := step_of_reaches_none hs
      rw [hstep]
  | some t => exact (h.does hs).others id hid

/-! ## Which writes are carried out -/

theorem Tracks.write_done_iff (h : w.Tracks j) {handle : Nat} {ref : StructRef} (href : w.handles[handle]? = some ref)
    {size : ObjectSize} (hsize : (Mark.sizes j)[ref.index]? = some size) (change : StructEdit) :
    (w.step (.write handle change)).1 = .done () ↔
      change.Within size ∧ w.message.HasRoomFor (.edit ref.index change) := by
  have hdoes := h.does (s := .write handle change) (congrArg (Option.map _) href)
  rw [← h.reflects.outside?_eq_none_iff hsize, ← Message.step_edit_done_iff, hdoes.done]
  cases (w.message.step (.edit ref.index change)).1 <;> simp [Ending.map]

/-! ## All sequences -/

/-- What handles read in a message, and what the steps on it leave alone. -/
structure ReadsBack (w : Workpiece) (j : List Mark) : Prop where
  /-- There are handles to all structs that were allocated for the message, and to nothing else. -/
  live : ∀ ref, ref ∈ w.handles ↔ ref.arena = w.envelope.arena ∧ ref.index < (Mark.sizes j).length
  /-- A word is what was stored there last through whichever handle, and zero if nothing was. -/
  word : ∀ ref ∈ w.handles, ∀ offset, w.word ref offset = (Mark.lastWord j ref.index offset).getD 0
  /-- So is a field, and null if nothing was stored there. -/
  field : ∀ ref ∈ w.handles, ∀ index, w.field ref index = (Mark.lastField j ref.index index).getD .null
  /-- What a field leads to is there. -/
  leads : ∀ ref ∈ w.handles, ∀ index, w.message.arena.Has (w.field ref index)
  /-- Handles and fields have indices of 32 bits, as long as there are enough of them. -/
  exact : w.message.arena.Numbered → ∀ ref ∈ w.handles, ref.index.toUInt32.toNat = ref.index ∧
    ∀ index, (w.field ref index).index.toUInt32.toNat = (w.field ref index).index
  /-- Outside a struct nothing is ever stored. -/
  outside : ∀ s size, (Mark.sizes j)[s]? = some size →
    (∀ offset, size.data ≤ offset → Mark.lastWord j s offset = none) ∧
      ∀ index, size.pointers ≤ index → Mark.lastField j s index = none
  /-- Inside of it everything is, as long as there is room. -/
  inside : ∀ handle ref size, w.handles[handle]? = some ref → (Mark.sizes j)[ref.index]? = some size →
    ∀ change, (w.step (.write handle change)).1 = .done () ↔
      change.Within size ∧ w.message.HasRoomFor (.edit ref.index change)
  /-- The slots hold the capabilities in the order in which they were added. -/
  slots : w.message.arena.caps = (Mark.capabilities j).map some
  /-- A step changes no struct but the one that it writes into. -/
  kept : ∀ s i, i < (Mark.sizes j).length → w.target? s ≠ some i →
    (w.step s).2.message.arena.structs[i]? = w.message.arena.structs[i]?
  /-- It changes no slot. -/
  added : ∀ s, w.message.arena.caps <+: (w.step s).2.message.arena.caps
  /-- A step that fails, or panics, changes nothing in structs and slots, and makes no handle. -/
  failed : ∀ s, (w.step s).1 ≠ .done () → (w.step s).2.message.arena.structs = w.message.arena.structs ∧
    (w.step s).2.message.arena.caps = w.message.arena.caps ∧ (w.step s).2.handles = w.handles
  /-- A new handle is to a struct of a handle that there was, or to one that is new itself. -/
  fresh : ∀ s, ∀ ref ∈ (w.step s).2.handles,
    ref ∈ w.handles ∨ ref = ⟨w.envelope.arena, (Mark.sizes j).length⟩
  /-- Other messages are left alone. -/
  others : ∀ s id, id ≠ w.envelope.arena → (w.step s).2.messages.arena id = w.messages.arena id

/-- Whatever is done to a message, in whatever order and through whichever handles. -/
theorem readsBack (messages : MessageStore) (wordLimit : Option Nat) (steps : List SharedStep) :
    ((start messages wordLimit).after steps).ReadsBack ((start messages wordLimit).journal [] steps) := by
  have h := tracks_after (tracks_start messages wordLimit) steps
  generalize (start messages wordLimit).after steps = w at h ⊢
  generalize (start messages wordLimit).journal [] steps = j at h ⊢
  constructor
  case live => exact h.live
  case word => exact fun ref href => h.word_eq href
  case field => exact fun ref href => h.field_eq href
  case leads => exact fun ref href => h.has_field href
  case exact =>
    intro hnumbered ref href
    have hhas : w.message.arena.Has (.struct ref.index) := by
      rw [Arena.Has, h.reflects.length_structs]
      exact ((h.live ref).1 href).2
    exact ⟨hhas.index_exact hnumbered, fun index => (h.has_field href index).index_exact hnumbered⟩
  case outside =>
    intro i size hsize
    have hwords : ((Mark.sizes j).map fun size => size.data.toNat)[i]? = some size.data.toNat := by
      simp [hsize]
    have hfields : ((Mark.sizes j).map fun size => size.pointers.toNat)[i]? = some size.pointers.toNat := by
      simp [hsize]
    exact ⟨fun offset hout => h.reflects.words.last_eq_none hwords (UInt16.le_iff_toNat_le.1 hout),
      fun index hout => h.reflects.fields.last_eq_none hfields (UInt16.le_iff_toNat_le.1 hout)⟩
  case inside => exact fun handle ref size href hsize change => h.write_done_iff href hsize change
  case slots => exact h.reflects.caps
  case kept => exact fun s i hi hne => h.getElem?_step hi hne
  case added => exact fun s => h.caps_step s
  case failed => exact fun s hs => h.step_of_undone hs
  case fresh => exact fun s ref href => h.mem_handles_step href
  case others => exact fun s id hid => h.arena_step_of_ne s hid

/-- A struct with two handles, and one below it. A word that is written through one handle is read through the other,
    and what is written outside of a struct goes nowhere. -/
example :
    let w := (start {} none).after [.build (.newStruct ⟨1, 1⟩), .share 0, .write 1 (.setWord 0 42),
      .write 0 (.initStruct 0 ⟨1, 0⟩), .write 2 (.setWord 0 7), .write 2 (.setWord 1 8)]
    w.handles.map (fun ref => (w.word ref 0, w.field ref 0)) =
      [(42, .struct 1), (42, .struct 1), (7, .null)] := by
  decide

end Workpiece

end Callee
