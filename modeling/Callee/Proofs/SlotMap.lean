import Callee.Proofs.ExportTable
import Mathlib.Data.List.Perm.Subperm

set_option autoImplicit false

/-! # Slots are a map

Whatever is pushed, erased and drained, a slot table is a map from ids to values in which a new value gets the
least id that is not live. The free ids are the ids of the empty slots, lowest first (`Slots.WF`), and that is
all that a push has to know (`push_fst_le`). Hence an id names the value that was pushed under it last until it
is erased or everything is drained (`isMap`). -/

namespace Callee

/-- An operation on a slot table. -/
inductive SlotsAction (α : Type) where
  | push (v : α)
  | erase (id : ExportId)
  | drain

namespace Slots

variable {α : Type}

/-- What an operation makes of a table. -/
def act (t : Slots α) : SlotsAction α → Slots α
  | .push v => (t.push v).2
  | .erase id => (t.erase id).2
  | .drain => t.drain.2

/-- The table after a sequence of operations. -/
def after (t : Slots α) (actions : List (SlotsAction α)) : Slots α :=
  actions.foldl act t

theorem wf_act {t : Slots α} (ht : t.WF) (action : SlotsAction α) : (t.act action).WF := by
  cases action with
  | push v => exact wf_push ht v
  | erase id => exact wf_erase ht id
  | drain => exact wf_empty

theorem wf_after {t : Slots α} (ht : t.WF) (actions : List (SlotsAction α)) : (t.after actions).WF := by
  induction actions generalizing t with
  | nil => exact ht
  | cons action rest ih => exact ih (wf_act ht action)

theorem after_append (t : Slots α) (actions more : List (SlotsAction α)) :
    t.after (actions ++ more) = (t.after actions).after more :=
  List.foldl_append

/-! ## The least id -/

/-- A push takes the least id without a value. -/
theorem push_fst_le {t : Slots α} (ht : t.WF) (v : α) {id : ExportId} (h : t.get? id = none) :
    (t.push v).1 ≤ id := by
  have hfree := ht.mem_free id
  unfold push
  split
  · next first rest heq =>
      -- ids without a value are in the heap or behind all slots, and the first in the heap is the least there
      by_cases hlt : id < t.slots.length
      · have hin : id ∈ first :: rest := heq ▸ hfree.2 ⟨hlt, h⟩
        have hleast := (List.pairwise_cons.1 (heq ▸ ht.ascending)).1
        rcases List.mem_cons.1 hin with rfl | hlater
        · exact Nat.le_refl _
        · exact Nat.le_of_lt (hleast id hlater)
      · have hfirst : first < t.slots.length := ((ht.mem_free first).1 (by simp [heq])).1
        exact Nat.le_of_lt (Nat.lt_of_lt_of_le hfirst (Nat.le_of_not_lt hlt))
  · next heq =>
      -- every slot has a value, so a slot is added
      rw [heq] at hfree
      by_contra hgt
      exact absurd (hfree.2 ⟨Nat.lt_of_not_le hgt, h⟩) (by simp)

/-! ## Live ids -/

/-- The ids that have a value, lowest first. -/
def live (t : Slots α) : List ExportId :=
  (List.range t.slots.length).filter fun id => (t.get? id).isSome

theorem mem_live (t : Slots α) (id : ExportId) : id ∈ t.live ↔ ∃ v, t.get? id = some v := by
  unfold live
  rw [List.mem_filter, List.mem_range, Option.isSome_iff_exists]
  constructor
  · rintro ⟨-, hsome⟩
    exact hsome
  · rintro ⟨v, hv⟩
    exact ⟨lt_of_get? hv, v, hv⟩

theorem pairwise_live (t : Slots α) : t.live.Pairwise (· < ·) :=
  List.pairwise_lt_range.filter _

/-- The values are those under the live ids, in their order. -/
theorem map_values (t : Slots α) : t.values.map some = t.live.map t.get? := by
  have hslots : t.slots = (List.range t.slots.length).map t.get? := by
    refine List.ext_getElem (by simp) fun i hi hi' => ?_
    simp [get?, hi]
  have hfilter : ∀ ids : List ExportId, (ids.filterMap t.get?).map some =
      (ids.filter fun id => (t.get? id).isSome).map t.get? := by
    intro ids
    induction ids with
    | nil => rfl
    | cons id rest ih => cases hid : t.get? id <;> simp [hid, ih]
  unfold values live
  rw [← hfilter]
  conv_lhs => rw [hslots, List.filterMap_map]
  rfl

theorem size_eq (t : Slots α) : t.size = t.live.length := by
  simpa [size] using congrArg List.length t.map_values

/-- All lower ids are live, so a new id is at most the number of values. -/
theorem push_fst_le_size {t : Slots α} (ht : t.WF) (v : α) : (t.push v).1 ≤ t.size := by
  have hlower : List.range (t.push v).1 ⊆ t.live := by
    intro id hid
    have hlt := List.mem_range.1 hid
    rw [mem_live, ← Option.isSome_iff_exists, ← Option.ne_none_iff_isSome]
    exact fun hnone => absurd (push_fst_le ht v hnone) (Nat.not_le.2 hlt)
  have hle := (List.subperm_of_subset List.nodup_range hlower).length_le
  rwa [List.length_range, ← size_eq] at hle

/-! ## What a value is kept through -/

/-- A value stays under its id until the id is erased or everything is drained. -/
theorem get?_act_of_kept {t : Slots α} (ht : t.WF) {id : ExportId} {v : α} (h : t.get? id = some v)
    {action : SlotsAction α} (erased : action ≠ .erase id) (drained : action ≠ .drain) :
    (t.act action).get? id = some v := by
  cases action with
  | push w =>
      have hother : id ≠ (t.push w).1 := by
        intro heq
        rw [heq, push_fst_free ht w] at h
        exact absurd h (by simp)
      simp only [act, get?_push ht, if_neg hother, h]
  | erase other =>
      have hother : id ≠ other := fun heq => erased (by rw [heq])
      simp only [act, get?_erase, if_neg hother, h]
  | drain => exact absurd rfl drained

theorem get?_after_of_kept {t : Slots α} (ht : t.WF) {id : ExportId} {v : α} (h : t.get? id = some v)
    {actions : List (SlotsAction α)} (erased : .erase id ∉ actions) (drained : .drain ∉ actions) :
    (t.after actions).get? id = some v := by
  induction actions generalizing t with
  | nil => exact h
  | cons action rest ih =>
      rw [List.mem_cons, not_or] at erased drained
      exact ih (wf_act ht action) (get?_act_of_kept ht h (Ne.symm erased.1) (Ne.symm drained.1))
        erased.2 drained.2

/-- A value under an id after an operation was pushed by it or was there before. -/
theorem get?_of_act {t : Slots α} (ht : t.WF) {action : SlotsAction α} {id : ExportId} {v : α}
    (h : (t.act action).get? id = some v) :
    (action = .push v ∧ (t.push v).1 = id) ∨
      (t.get? id = some v ∧ action ≠ .erase id ∧ action ≠ .drain) := by
  cases action with
  | push w =>
      simp only [act, get?_push ht] at h
      split at h
      · next hid =>
          obtain rfl := Option.some.inj h
          exact Or.inl ⟨rfl, hid.symm⟩
      · exact Or.inr ⟨h, by simp, by simp⟩
  | erase other =>
      simp only [act, get?_erase] at h
      split at h
      · exact absurd h (by simp)
      · next hid => exact Or.inr ⟨h, by simpa using Ne.symm hid, by simp⟩
  | drain => exact absurd h (by simp [act, Slots.drain, get?])

/-- The value was pushed under the id, and since then the id was not erased nor everything drained. -/
def Pushed (actions : List (SlotsAction α)) (id : ExportId) (v : α) : Prop :=
  ∃ before rest, actions = before ++ .push v :: rest ∧ ((({} : Slots α).after before).push v).1 = id ∧
    .erase id ∉ rest ∧ .drain ∉ rest

theorem get?_after_iff (actions : List (SlotsAction α)) (id : ExportId) (v : α) :
    (({} : Slots α).after actions).get? id = some v ↔ Pushed actions id v := by
  constructor
  · intro h
    induction actions using List.reverseRecOn with
    | nil => exact absurd h (by simp [after, get?])
    | append_singleton actions action ih =>
        rw [after_append] at h
        rcases get?_of_act (wf_after wf_empty actions) h with ⟨rfl, hid⟩ | ⟨hold, herased, hdrained⟩
        · exact ⟨actions, [], rfl, hid, by simp, by simp⟩
        · obtain ⟨before, rest, rfl, hid, hkept, hleft⟩ := ih hold
          exact ⟨before, rest ++ [action], by simp, hid, by simp [hkept, Ne.symm herased],
            by simp [hleft, Ne.symm hdrained]⟩
  · rintro ⟨before, rest, rfl, rfl, herased, hdrained⟩
    have hbefore := wf_after (wf_empty (α := α)) before
    rw [after_append]
    exact get?_after_of_kept (wf_push hbefore v) ((get?_push hbefore v _).trans (if_pos rfl)) herased hdrained

/-! ## All sequences -/

/-- What holds of a slot table after a sequence of operations. -/
structure IsMap (t : Slots α) (actions : List (SlotsAction α)) : Prop where
  /-- A new value gets the least id without a value. -/
  least : ∀ v, t.get? (t.push v).1 = none ∧ ∀ id, t.get? id = none → (t.push v).1 ≤ id
  /-- So ids are as small as the number of values. -/
  small : ∀ v, (t.push v).1 ≤ t.size
  /-- And 32 bits hold them if there are not more values than that. -/
  exact : t.size < UInt32.size → ∀ v, (t.push v).1.toUInt32.toNat = (t.push v).1
  push : ∀ v id, (t.push v).2.get? id = if id = (t.push v).1 then some v else t.get? id
  erase : ∀ id, (t.erase id).1 = t.get? id ∧
    ∀ other, (t.erase id).2.get? other = if other = id then none else t.get? other
  /-- All values are drained, by ascending id, and none is left. -/
  drain : t.drain.1.map some = t.live.map t.get? ∧ ∀ id, t.drain.2.get? id = none
  /-- An id has the value that was pushed under it last, if it was not erased since. -/
  find : ∀ id v, t.get? id = some v ↔ Pushed actions id v
  /-- No operation changes a value, and each one stays unless it is given out. -/
  kept : ∀ action id v, t.get? id = some v →
    (t.act action).get? id = some v ∨ (action = .erase id ∧ (t.erase id).1 = some v) ∨
      (action = .drain ∧ v ∈ t.drain.1)
  ascending : t.live.Pairwise (· < ·)
  mem_live : ∀ id, id ∈ t.live ↔ ∃ v, t.get? id = some v
  size : t.size = t.live.length

theorem isMap (actions : List (SlotsAction α)) : (({} : Slots α).after actions).IsMap actions := by
  have ht := wf_after (wf_empty (α := α)) actions
  generalize htable : ({} : Slots α).after actions = t at ht
  have herase : ∀ id, (t.erase id).1 = t.get? id := by
    intro id
    unfold Slots.erase
    cases t.get? id <;> rfl
  constructor
  case least => exact fun v => ⟨push_fst_free ht v, fun id h => push_fst_le ht v h⟩
  case small => exact fun v => push_fst_le_size ht v
  case exact =>
    exact fun hsize v => UInt32.toNat_ofNat_of_lt' (Nat.lt_of_le_of_lt (push_fst_le_size ht v) hsize)
  case push => exact fun v id => get?_push ht v id
  case erase => exact fun id => ⟨herase id, t.get?_erase id⟩
  case drain => exact ⟨t.map_values, fun id => by simp [Slots.drain, get?]⟩
  case find => exact fun id v => htable ▸ get?_after_iff actions id v
  case kept =>
    intro action id v h
    by_cases herased : action = .erase id
    · exact Or.inr (Or.inl ⟨herased, (herase id).trans h⟩)
    · by_cases hdrained : action = .drain
      · have hin : some v ∈ t.values.map some := by
          rw [t.map_values]
          exact List.mem_map.2 ⟨id, (t.mem_live id).2 ⟨v, h⟩, h⟩
        obtain ⟨w, hw, heq⟩ := List.mem_map.1 hin
        exact Or.inr (Or.inr ⟨hdrained, Option.some.inj heq ▸ hw⟩)
      · exact Or.inl (get?_act_of_kept ht h herased hdrained)
  case ascending => exact t.pairwise_live
  case mem_live => exact t.mem_live
  case size => exact t.size_eq

/-- Erased ids are used again, lowest first. -/
example :
    let t := ({} : Slots Char).after
      [.push 'a', .push 'b', .push 'c', .erase 2, .erase 0, .erase 0, .push 'd']
    t.get? 0 = some 'd' ∧ (t.push 'e').1 = 2 ∧ t.live = [0, 1] := by
  decide

end Slots

end Callee
