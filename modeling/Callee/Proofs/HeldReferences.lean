import Callee.Proofs.HandingOut

set_option autoImplicit false

/-! # What the exports hold

An export holds one reference to its capability, however many the peer holds. It is taken when the
capability gets its export and given up when the export goes away, so whatever is done to the exports of
a connection, in whatever order, the references that were taken are those that were given up and those
that stand in the slots. The three parts that make up the exports belong together all the while: the index by
identity leads to the filled slots and nowhere else, every filled slot is counted, and the free ids are
the empty slots (`Exports.consistent_after`). -/

namespace Callee

/-! ## Filled places of a list -/

/-- Replacing one place of a list changes what is filled by what stood there and what stands there now. -/
theorem List.perm_filterMap_set {α : Type} {l : List (Option α)} {i : Nat} {o : Option α}
    (h : l[i]? = some o) (o' : Option α) :
    ((l.set i o').filterMap id ++ o.toList).Perm (l.filterMap id ++ o'.toList) := by
  induction l generalizing i with
  | nil => exact absurd h (by simp)
  | cons first rest ih =>
      cases i with
      | zero =>
          obtain rfl : first = o := by simpa using h
          have hhead : ∀ p : Option α, ((p :: rest).filterMap id) = p.toList ++ rest.filterMap id := by
            intro p
            cases p <;> rfl
          rw [List.set_cons_zero, hhead, hhead, List.append_assoc, List.append_assoc]
          exact (List.perm_append_comm.append_left o'.toList).trans
            ((List.perm_append_comm_assoc _ _ _).trans
              (List.perm_append_comm.append_left first.toList))
      | succ j =>
          have hrest := ih (i := j) (by simpa using h)
          cases first with
          | none => exact hrest
          | some v => exact hrest.cons v

namespace Slots

variable {α : Type}

theorem slots_of_get? {t : Slots α} {id : ExportId} {v : α} (h : t.get? id = some v) :
    t.slots[id]? = some (some v) :=
  Option.join_eq_some_iff.1 h

theorem mem_values_iff (t : Slots α) (v : α) : v ∈ t.values ↔ ∃ id, t.get? id = some v := by
  unfold values get?
  rw [List.mem_filterMap]
  constructor
  · rintro ⟨o, ho, rfl⟩
    obtain ⟨id, hid⟩ := List.mem_iff_getElem?.1 ho
    exact ⟨id, by rw [hid]; rfl⟩
  · rintro ⟨id, hid⟩
    exact ⟨some v, List.mem_iff_getElem?.2 ⟨id, Option.join_eq_some_iff.1 hid⟩, rfl⟩

theorem values_set {t : Slots α} {id : ExportId} {w : α} (h : t.get? id = some w) (v : α) :
    ((t.set id v).values ++ [w]).Perm (t.values ++ [v]) :=
  List.perm_filterMap_set (slots_of_get? h) (some v)

theorem values_erase {t : Slots α} {id : ExportId} {w : α} (h : t.get? id = some w) :
    ((t.erase id).2.values ++ [w]).Perm t.values := by
  have hset := List.perm_filterMap_set (slots_of_get? h) none
  rw [Option.toList_none, List.append_nil] at hset
  simp only [erase, h]
  exact hset

theorem values_push {t : Slots α} (ht : t.WF) (v : α) :
    (t.push v).2.values.Perm (t.values ++ [v]) := by
  unfold push
  split
  · next id rest hfree =>
      -- the place of a free id is there, and it is empty
      obtain ⟨hlt, hempty⟩ := (ht.mem_free id).1 (hfree ▸ List.mem_cons_self)
      have hget : t.slots[id]? = some none := by
        rw [List.getElem?_eq_getElem hlt]
        unfold get? at hempty
        rw [List.getElem?_eq_getElem hlt] at hempty
        exact congrArg some hempty
      have hset := List.perm_filterMap_set hget (some v)
      rw [Option.toList_none, List.append_nil] at hset
      exact hset
  · simp [values]

end Slots

namespace Exports

/-! ## References that are taken -/

/-- The references to capabilities that the exports hold themselves, one in each filled slot. -/
def held (x : Exports) : List Capability := x.table.values.map Export.cap

/-- The reference that is taken when a capability is handed to the peer: none if a reference to the same
    capability is held. -/
def takes (x : Exports) (cap : Capability) : List Capability :=
  if x.held.any fun other => other.identity = cap.identity then [] else [cap]

/-- The references that are taken when the slots of a capability table are described. -/
def takesAll (x : Exports) : List (Option Capability) → List Capability
  | [] => []
  | none :: rest => x.takesAll rest
  | some cap :: rest => x.takes cap ++ (x.add cap).value.2.takesAll rest

theorem takes_of_find? {x : Exports} (hx : x.WF) (cap : Capability) :
    x.takes cap = if (x.find? cap).isSome then [] else [cap] := by
  have hany : (x.held.any fun other => other.identity = cap.identity) = (x.find? cap).isSome := by
    rw [Bool.eq_iff_iff, List.any_eq_true, Option.isSome_iff_exists]
    constructor
    · rintro ⟨other, hother, hid⟩
      obtain ⟨e, he, rfl⟩ := List.mem_map.1 hother
      obtain ⟨id, hget⟩ := (Slots.mem_values_iff _ _).1 he
      exact ⟨(id, e), (find?_eq_some_iff hx cap id e).2 ⟨hget, by simpa using hid⟩⟩
    · rintro ⟨⟨id, e⟩, hfind⟩
      obtain ⟨hget, hid⟩ := (find?_eq_some_iff hx cap id e).1 hfind
      exact ⟨e.cap, List.mem_map_of_mem ((Slots.mem_values_iff _ _).2 ⟨id, hget⟩), by simpa using hid⟩
  unfold takes
  rw [hany]

theorem held_recount {x : Exports} {id : ExportId} {e : Export} (he : x.table.get? id = some e)
    (n : Nat) : ({ x with table := x.table.set id { e with refs := n } } : Exports).held.Perm x.held := by
  have hset := (Slots.values_set he { e with refs := n }).map Export.cap
  rw [List.map_append, List.map_append] at hset
  exact (List.perm_append_right_iff _).1 hset

theorem held_add {x : Exports} (hx : x.WF) (cap : Capability) :
    (x.add cap).value.2.held.Perm (x.held ++ x.takes cap) := by
  rw [takes_of_find? hx]
  unfold add
  split
  · next id e hfind =>
      rw [hfind, Option.isSome_some, if_pos rfl, List.append_nil]
      exact held_recount ((find?_eq_some_iff hx cap id e).1 hfind).1 _
  · next hfind =>
      have hpush := (Slots.values_push hx.slots { refs := 1, cap := cap }).map Export.cap
      rw [List.map_append] at hpush
      rw [hfind]
      exact hpush

theorem held_describe {x : Exports} (hx : x.WF) (caps : List (Option Capability)) :
    (x.describe caps).value.2.held.Perm (x.held ++ x.takesAll caps) := by
  induction caps generalizing x with
  | nil => exact List.Perm.of_eq (List.append_nil _).symm
  | cons slot rest ih =>
      cases slot with
      | none => exact ih hx
      | some cap =>
          have hrest := ih (add_spec hx cap).1.wf
          have hone := (held_add hx cap).append_right ((x.add cap).value.2.takesAll rest)
          rw [List.append_assoc] at hone
          exact hrest.trans hone

/-! ## References that are given up -/

/-- Giving one reference back moves what is held from a slot to what was released, or leaves both. -/
theorem held_releaseOne (r : Release) (id : ExportId) :
    ((releaseOne r id).exports.held ++ (releaseOne r id).released).Perm
      (r.exports.held ++ r.released) := by
  unfold releaseOne
  split
  · exact .refl _
  · next e he =>
      split
      · have herase := (Slots.values_erase he).map Export.cap
        rw [List.map_append] at herase
        refine (List.perm_append_comm.append_left _).trans ?_
        rw [← List.append_assoc]
        exact herase.append_right _
      · exact (held_recount he _).append_right _

theorem held_release (x : Exports) (ids : List ExportId) :
    ((x.release ids).exports.held ++ (x.release ids).released).Perm x.held := by
  have hfold : ∀ r : Release, ((ids.foldl releaseOne r).exports.held ++
      (ids.foldl releaseOne r).released).Perm (r.exports.held ++ r.released) := by
    induction ids with
    | nil => exact fun r => .refl _
    | cons id rest ih => exact fun r => (ih (releaseOne r id)).trans (held_releaseOne r id)
  exact (hfold { exports := x }).trans (List.Perm.of_eq (List.append_nil _))

end Exports

/-! ## Sequences of operations -/

/-- What can be done to the exports of a connection. -/
inductive ExportsAction where
  /-- A capability is handed to the peer. -/
  | add (cap : Capability)
  /-- The capabilities of a message are handed to the peer. -/
  | writeDescriptors (m : Message)
  /-- The peer gives references back. -/
  | release (ids : List ExportId)
  /-- All exports are given up. -/
  | drain

namespace Exports

/-- What an operation makes of the exports. -/
def act (x : Exports) : ExportsAction → Exports
  | .add cap => (x.add cap).value.2
  | .writeDescriptors m => (x.writeDescriptors m).value.2.2
  | .release ids => (x.release ids).exports
  | .drain => x.drain.2

/-- The references that an operation takes: those of the capabilities that had no export. -/
def taken (x : Exports) : ExportsAction → List Capability
  | .add cap => x.takes cap
  | .writeDescriptors m =>
      match (x.writeDescriptors m).value.1 with
      | .ok _ => x.takesAll m.arena.caps
      | .error _ => []
  | .release _ => []
  | .drain => []

/-- The references that an operation gives up. -/
def givenUp (x : Exports) : ExportsAction → List Capability
  | .release ids => (x.release ids).released
  | .drain => x.drain.1.map Export.cap
  | _ => []

/-- The exports after a sequence of operations. -/
def after (x : Exports) (actions : List ExportsAction) : Exports :=
  actions.foldl act x

/-- What the operations of a sequence contribute, one after the other. -/
def along (f : Exports → ExportsAction → List Capability) : Exports → List ExportsAction →
    List Capability
  | _, [] => []
  | x, action :: rest => f x action ++ along f (x.act action) rest

theorem wf_act {x : Exports} (hx : x.WF) (action : ExportsAction) : (x.act action).WF := by
  cases action with
  | add cap => exact (add_spec hx cap).1.wf
  | release ids => exact wf_release hx ids
  | drain => exact wf_drain x
  | writeDescriptors m =>
      show (x.writeDescriptors m).value.2.2.WF
      rcases x.writeDescriptors_cases m with ⟨e, -, heq⟩ | ⟨ret, payload, words, -, -, heq⟩ <;> rw [heq]
      · exact hx
      · exact (describe_spec hx m.arena.caps).1.wf

/-- What an operation takes comes to what was held, and what it gives up leaves it. -/
theorem held_act {x : Exports} (hx : x.WF) (action : ExportsAction) :
    ((x.act action).held ++ x.givenUp action).Perm (x.held ++ x.taken action) := by
  cases action with
  | add cap => exact (List.Perm.of_eq (List.append_nil _)).trans (held_add hx cap)
  | release ids => exact (held_release x ids).trans (List.Perm.of_eq (List.append_nil _).symm)
  | drain => exact List.Perm.of_eq (List.append_nil _).symm
  | writeDescriptors m =>
      refine (List.Perm.of_eq (List.append_nil _)).trans ?_
      simp only [act, taken]
      rcases x.writeDescriptors_cases m with ⟨e, -, heq⟩ | ⟨ret, payload, words, -, -, heq⟩ <;> rw [heq]
      · exact List.Perm.of_eq (List.append_nil _).symm
      · exact held_describe hx m.arena.caps

theorem wf_after {x : Exports} (hx : x.WF) (actions : List ExportsAction) : (x.after actions).WF := by
  induction actions generalizing x with
  | nil => exact hx
  | cons action rest ih => exact ih (wf_act hx action)

theorem held_after {x : Exports} (hx : x.WF) (actions : List ExportsAction) :
    ((x.after actions).held ++ x.along givenUp actions).Perm (x.held ++ x.along taken actions) := by
  induction actions generalizing x with
  | nil => exact .refl _
  | cons action rest ih =>
      have hone := held_act hx action
      have hrest := ih (wf_act hx action)
      calc List.Perm (((x.act action).after rest).held ++
              (x.givenUp action ++ (x.act action).along givenUp rest))
            (((x.act action).after rest).held ++ (x.act action).along givenUp rest ++
              x.givenUp action) := by
            rw [List.append_assoc]
            exact List.perm_append_comm.append_left _
        List.Perm _ ((x.act action).held ++ (x.act action).along taken rest ++ x.givenUp action) :=
            hrest.append_right _
        List.Perm _ ((x.act action).held ++ x.givenUp action ++ (x.act action).along taken rest) := by
            rw [List.append_assoc, List.append_assoc]
            exact List.perm_append_comm.append_left _
        List.Perm _ (x.held ++ x.taken action ++ (x.act action).along taken rest) :=
            hone.append_right _
        List.Perm _ (x.held ++ (x.taken action ++ (x.act action).along taken rest)) :=
            .of_eq (List.append_assoc _ _ _)

/-! ## All sequences -/

/-- How the parts of the exports belong together. -/
structure Consistent (x : Exports) : Prop where
  /-- The index leads from an identity to an id exactly if a capability with that identity is in the slot
      of that id. -/
  index : ∀ k id, x.byIdentity.get? k = some id ↔
    ∃ e, x.table.slots[id]? = some (some e) ∧ e.cap.identity = k
  /-- No capability has two ids. -/
  unique : ∀ (id id' : ExportId) (e e' : Export), x.table.slots[id]? = some (some e) →
    x.table.slots[id']? = some (some e') → e.cap.identity = e'.cap.identity → id = id'
  counted : ∀ (id : ExportId) (e : Export), x.table.slots[id]? = some (some e) → 0 < e.refs
  free_nodup : x.table.free.Nodup
  /-- The free ids are those of the empty slots. -/
  mem_free : ∀ id, id ∈ x.table.free ↔ x.table.slots[id]? = some none

theorem WF.consistent {x : Exports} (hx : x.WF) : x.Consistent where
  index k id := by
    rw [hx.index]
    simp only [Slots.get?, Option.join_eq_some_iff]
  unique id id' e e' he he' hsame := by
    -- the index leads from their identity to both
    have hfirst := (hx.index e'.cap.identity id).2 ⟨e, Option.join_eq_some_iff.2 he, hsame⟩
    have hsecond := (hx.index e'.cap.identity id').2 ⟨e', Option.join_eq_some_iff.2 he', rfl⟩
    exact Option.some.inj (hfirst.symm.trans hsecond)
  counted id e he := hx.counted id e (Option.join_eq_some_iff.2 he)
  free_nodup := hx.slots.ascending.imp Nat.ne_of_lt
  mem_free id := by
    rw [hx.slots.mem_free]
    unfold Slots.get?
    constructor
    · rintro ⟨hlt, hempty⟩
      rw [List.getElem?_eq_getElem hlt] at hempty ⊢
      exact congrArg some hempty
    · intro hget
      exact ⟨(List.getElem?_eq_some_iff.1 hget).1, by rw [hget]; rfl⟩

/-- After every sequence of operations the parts of the exports belong together, and the references that
    were taken are those that were given up and those in the slots, one in each filled slot. -/
theorem consistent_after (actions : List ExportsAction) :
    (({} : Exports).after actions).Consistent ∧
      (({} : Exports).along taken actions).Perm
        (({} : Exports).along givenUp actions ++ (({} : Exports).after actions).held) :=
  ⟨(wf_after wf_empty actions).consistent,
    (held_after wf_empty actions).symm.trans List.perm_append_comm⟩

/-- One capability is handed out twice and given back once, with an id that is not in use; another takes
    the next id. -/
example :
    let x := ({} : Exports).after [.add ⟨"a", 5⟩, .add ⟨"other", 5⟩, .release [0, 7], .add ⟨"b", 6⟩]
    x.held = [⟨"a", 5⟩, ⟨"b", 6⟩] ∧ x.refs 0 = 1 ∧ x.table.free = [] := by
  decide

end Exports

end Callee
