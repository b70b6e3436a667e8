import Callee.Table

set_option autoImplicit false

/-! # Entries and totals of a table

A table is looked at through `get?`, but what is counted over a whole table is counted over its list
of entries. This file ties the two: an entry stands in the list exactly when `get?` finds it
(`mem_entries_iff`), and writing or erasing one key changes a total by what stood under that key
(`total_insert`, `total_erase`). -/

namespace Callee.Table

variable {κ α : Type} [DecidableEq κ]

/-! ## Entries -/

theorem find_eq_some_iff {k : κ} {v : α} (es : List (κ × α)) (h : (es.map Prod.fst).Nodup) :
    find k es = some v ↔ (k, v) ∈ es := by
  induction es with
  | nil => simp [find]
  | cons e rest ih =>
      obtain ⟨hnot, hrest⟩ := List.nodup_cons.1 h
      obtain ⟨j, w⟩ := e
      by_cases hj : j = k
      · subst hj
        have hout : (j, v) ∉ rest := fun hin => hnot (List.mem_map.2 ⟨(j, v), hin, rfl⟩)
        simp [find, hout, eq_comm]
      · have hk : ¬ k = j := fun he => hj he.symm
        simp [find, hj, hk, ih hrest]

/-- An entry stands in a table exactly when looking its key up finds its value. -/
theorem mem_entries_iff (t : Table κ α) (k : κ) (v : α) : (k, v) ∈ t.entries ↔ t.get? k = some v :=
  (find_eq_some_iff t.entries t.nodup_keys).symm

theorem size_eq_zero_iff (t : Table κ α) : t.size = 0 ↔ ∀ k, t.get? k = none := by
  refine List.length_eq_zero_iff.trans (List.eq_nil_iff_forall_not_mem.trans ?_)
  constructor
  · intro h k
    cases hk : t.get? k with
    | none => rfl
    | some v => exact absurd ((t.mem_entries_iff k v).2 hk) (h (k, v))
  · rintro h ⟨k, v⟩ hin
    exact absurd ((h k).symm.trans ((t.mem_entries_iff k v).1 hin)) (by simp)

/-- What stands in a table after one key was written or taken out. -/
theorem get?_of_replaced {t t' : Table κ α} {k j : κ} {v w : α}
    (h : t' = t.insert k v ∨ t' = t.erase k) (hw : t'.get? j = some w) :
    j = k ∧ w = v ∨ j ≠ k ∧ t.get? j = some w := by
  rcases h with h | h
  · rw [h, get?_insert] at hw
    split at hw
    · next hj => exact Or.inl ⟨hj, (Option.some.inj hw).symm⟩
    · next hj => exact Or.inr ⟨hj, hw⟩
  · rw [h, get?_erase] at hw
    split at hw
    · exact absurd hw (by simp)
    · next hj => exact Or.inr ⟨hj, hw⟩

/-! ## Lists made from the entries -/

/-- What a table gives, entry by entry, has no element twice if no two entries give the same. -/
theorem nodup_filterMap_entries {β : Type} (t : Table κ α) (f : κ × α → Option β)
    (h : ∀ k v k' v' b, t.get? k = some v → t.get? k' = some v' → f (k, v) = some b →
      f (k', v') = some b → k = k') :
    (t.entries.filterMap f).Nodup := by
  have hkeys : t.entries.Pairwise fun e e' => e.1 ≠ e'.1 := List.pairwise_map.1 t.nodup_keys
  have hin : t.entries.Pairwise fun e e' => e ∈ t.entries ∧ e' ∈ t.entries :=
    List.pairwise_of_forall_mem_list fun a ha b hb => ⟨ha, hb⟩
  refine List.pairwise_filterMap.2 ((hkeys.and hin).imp ?_)
  rintro ⟨k, v⟩ ⟨k', v'⟩ ⟨hne, he, he'⟩ b hb b' hb' heq
  subst heq
  have hv := (t.mem_entries_iff k v).1 he
  have hv' := (t.mem_entries_iff k' v').1 he'
  exact hne (h k v k' v' b hv hv' hb hb')

/-! ## Totals -/

/-- The sum of a weight over the values of a list of entries. -/
def weigh (f : α → Nat) : List (κ × α) → Nat
  | [] => 0
  | e :: rest => f e.2 + weigh f rest

/-- The sum of a weight over all values. -/
def total (t : Table κ α) (f : α → Nat) : Nat := weigh f t.entries

theorem weigh_filter_ne (f : α → Nat) (k : κ) (es : List (κ × α)) (h : (es.map Prod.fst).Nodup) :
    weigh f (es.filter fun e => !decide (e.1 = k)) + ((find k es).map f).getD 0 = weigh f es := by
  induction es with
  | nil => rfl
  | cons e rest ih =>
      obtain ⟨hnot, hrest⟩ := List.nodup_cons.1 h
      by_cases hk : e.1 = k
      · have hgone : rest.filter (fun e => !decide (e.1 = k)) = rest := by
          refine List.filter_eq_self.2 fun d hd => ?_
          have hne : d.1 ≠ k := fun he => hnot (List.mem_map.2 ⟨d, hd, he.trans hk.symm⟩)
          simp [hne]
        simp [weigh, find, hk, hgone, Nat.add_comm]
      · have := ih hrest
        simp only [weigh, find, hk, if_false, List.filter_cons, decide_false, Bool.not_false, if_true]
        omega

/-- Erasing a key takes what stood under it out of a total. -/
theorem total_erase (t : Table κ α) (f : α → Nat) (k : κ) :
    (t.erase k).total f + ((t.get? k).map f).getD 0 = t.total f :=
  weigh_filter_ne f k t.entries t.nodup_keys

theorem le_total (t : Table κ α) (f : α → Nat) {k : κ} {v : α} (h : t.get? k = some v) :
    f v ≤ t.total f := by
  have hsum := t.total_erase f k
  rw [h, Option.map_some, Option.getD_some] at hsum
  omega

/-- Writing under a key puts the new value into a total in place of what stood there. -/
theorem total_insert (t : Table κ α) (f : α → Nat) (k : κ) (v : α) :
    (t.insert k v).total f + ((t.get? k).map f).getD 0 = t.total f + f v := by
  have h := t.total_erase f k
  have hcons : (t.insert k v).total f = f v + (t.erase k).total f := rfl
  omega

/-- Changing the value under a key changes a total by what the value weighs. -/
theorem total_modify (t : Table κ α) (g : α → Nat) {k : κ} {v : α} (h : t.get? k = some v)
    (f : α → α) : (t.modify k f).total g + g v = t.total g + g (f v) := by
  have hsum := t.total_insert g k (f v)
  rw [h, Option.map_some, Option.getD_some] at hsum
  unfold modify
  rw [h]
  exact hsum

theorem total_modify_of_eq (t : Table κ α) (g : α → Nat) (k : κ) {f : α → α}
    (h : ∀ v, g (f v) = g v) : (t.modify k f).total g = t.total g := by
  cases hk : t.get? k with
  | none =>
      unfold modify
      rw [hk]
  | some v =>
      have hsum := t.total_modify g hk f
      rw [h] at hsum
      exact Nat.add_right_cancel hsum

end Callee.Table
