import Callee.Proofs.ExportTable

set_option autoImplicit false

/-! # Giving back any references

The peer may give back references that it does not hold. Each id has its turn, and an id may be in use at one of
its turns and not at the next. Of the references to an export those that are there are taken back, the export goes
away with the last one, and its id is invalid at all later turns (`get?_release_eq_none_iff`). So what becomes of
the table depends only on how often each id is given back, what is reported also on when (`releases`). -/

namespace Callee

theorem Slots.perm_insertAscending (id : ExportId) (ids : List ExportId) :
    (insertAscending id ids).Perm (id :: ids) := by
  induction ids with
  | nil => exact .refl _
  | cons first rest ih =>
      unfold insertAscending
      split
      · exact .refl _
      · exact (ih.cons first).trans (.swap id first rest)

theorem Slots.free_erase {α : Type} {t : Slots α} {id : ExportId} {v : α} (h : t.get? id = some v) :
    (t.erase id).2.free.Perm (id :: t.free) := by
  simp only [erase, h]
  exact perm_insertAscending id t.free

namespace Exports

/-! ## Invalid ids -/

/-- The ids in a list that are not in use at their turn, as often as they are not. -/
def invalidAmong (x : Exports) (ids : List ExportId) : List ExportId :=
  (ids.zipIdx.filter fun p => (x.release (ids.take p.2)).exports.table.get? p.1 = none).map Prod.fst

theorem invalidAmong_append_one (x : Exports) (ids : List ExportId) (id : ExportId) :
    x.invalidAmong (ids ++ [id]) =
      x.invalidAmong ids ++ if (x.release ids).exports.table.get? id = none then [id] else [] := by
  have hbefore : ∀ p ∈ ids.zipIdx, (ids ++ [id]).take p.2 = ids.take p.2 := by
    rintro ⟨j, i⟩ hp
    exact List.take_append_of_le_length (Nat.le_of_lt (List.mem_zipIdx' hp).1)
  unfold invalidAmong
  rw [List.zipIdx_append, List.filter_append, List.map_append]
  congr 1
  · refine congrArg (List.map Prod.fst) (List.filter_congr fun p hp => ?_)
    rw [hbefore p hp]
  · by_cases hnone : (x.release ids).exports.table.get? id = none <;> simp [hnone]

theorem mem_invalidAmong (x : Exports) (ids : List ExportId) (id : ExportId) : id ∈ x.invalidAmong ids ↔
    ∃ before after, ids = before ++ id :: after ∧ (x.release before).exports.table.get? id = none := by
  induction ids using List.reverseRecOn with
  | nil => simp [invalidAmong]
  | append_singleton ids last ih =>
      rw [invalidAmong_append_one, List.mem_append, ih]
      constructor
      · rintro (⟨before, after, rfl, hnone⟩ | hlast)
        · exact ⟨before, after ++ [last], by simp, hnone⟩
        · split at hlast
          · next hnone =>
              obtain rfl := List.mem_singleton.1 hlast
              exact ⟨ids, [], rfl, hnone⟩
          · exact absurd hlast (by simp)
      · rintro ⟨before, after, heq, hnone⟩
        -- it is invalid at the last turn, or at one before
        rcases List.eq_nil_or_concat after with rfl | ⟨middle, other, rfl⟩
        · obtain ⟨rfl, hone⟩ := List.append_inj' heq rfl
          obtain rfl := (List.cons.inj hone).1
          exact Or.inr (by simp [hnone])
        · rw [List.concat_eq_append, ← List.cons_append, ← List.append_assoc] at heq
          exact Or.inl ⟨before, middle, (List.append_inj' heq rfl).1, hnone⟩

theorem invalid_release {x : Exports} (hx : x.WF) (ids : List ExportId) :
    (x.release ids).invalid = x.invalidAmong ids := by
  induction ids using List.reverseRecOn with
  | nil => rfl
  | append_singleton ids id ih =>
      rw [release_append_one, invalidAmong_append_one, ← ih]
      rcases releaseOne_cases (wf_release hx ids) id with ⟨hnone, heq⟩ | ⟨e, he, -, heq⟩ | ⟨e, he, -, heq⟩ <;>
        rw [heq]
      · rw [if_pos hnone]
      · simp [he]
      · simp [he]

/-! ## Exports that go away -/

/-- The exports that go away when references are given back, each one once: what is released for them, and what
    ids become free. -/
structure Leave (x : Exports) (ids gone : List ExportId) : Prop where
  once : gone.Nodup
  /-- They are those whose references were all given back. -/
  mem_iff : ∀ id, id ∈ gone ↔ ∃ e, x.table.get? id = some e ∧ e.refs ≤ ids.count id
  /-- One reference to its capability is released for each. -/
  released : (x.release ids).released.map some = gone.map fun id => (x.table.get? id).map Export.cap
  /-- Each id is free again, once. -/
  freed : (x.release ids).exports.table.free.Perm (gone ++ x.table.free)

/-- A turn at which no export goes away. -/
theorem Leave.stay {x : Exports} {ids gone : List ExportId} (h : x.Leave ids gone) {id : ExportId}
    (released : (x.release (ids ++ [id])).released = (x.release ids).released)
    (free : (x.release (ids ++ [id])).exports.table.free = (x.release ids).exports.table.free)
    (same : ∀ e, x.table.get? id = some e → (e.refs ≤ (ids ++ [id]).count id ↔ e.refs ≤ ids.count id)) :
    x.Leave (ids ++ [id]) gone where
  once := h.once
  mem_iff j := by
    rw [h.mem_iff]
    by_cases hj : j = id
    · subst hj
      exact exists_congr fun e => and_congr_right fun he => (same e he).symm
    · rw [List.count_append, List.count_singleton, if_neg (by simpa using Ne.symm hj), Nat.add_zero]
  released := by rw [released, h.released]
  freed := by rw [free]; exact h.freed

/-- A turn at which the last reference to an export is given back. -/
theorem Leave.leave {x : Exports} {ids gone : List ExportId} (h : x.Leave ids gone) {id : ExportId} {e : Export}
    (he : x.table.get? id = some e) (hlast : e.refs = ids.count id + 1)
    (released : (x.release (ids ++ [id])).released = (x.release ids).released ++ [e.cap])
    (free : (x.release (ids ++ [id])).exports.table.free.Perm (id :: (x.release ids).exports.table.free)) :
    x.Leave (ids ++ [id]) (gone ++ [id]) where
  once := by
    have hnew : id ∉ gone := by
      rw [h.mem_iff]
      rintro ⟨d, hd, hle⟩
      obtain rfl := Option.some.inj (hd.symm.trans he)
      omega
    rw [List.nodup_append]
    refine ⟨h.once, by simp, ?_⟩
    intro j hj k hk heq
    rw [heq, List.mem_singleton.1 hk] at hj
    exact hnew hj
  mem_iff j := by
    rw [List.mem_append, h.mem_iff, List.mem_singleton, List.count_append, List.count_singleton]
    by_cases hj : j = id
    · subst hj
      exact iff_of_true (Or.inr rfl) ⟨e, he, by simp [hlast]⟩
    · simp [hj, Ne.symm hj]
  released := by rw [released, List.map_append, List.map_append, h.released, List.map_singleton,
    List.map_singleton, he, Option.map_some]
  freed := by
    calc (x.release (ids ++ [id])).exports.table.free
      List.Perm _ (id :: (x.release ids).exports.table.free) := free
      List.Perm _ (id :: (gone ++ x.table.free)) := h.freed.cons id
      List.Perm _ (gone ++ id :: x.table.free) := List.perm_middle.symm
      List.Perm _ (gone ++ [id] ++ x.table.free) := .of_eq (by simp)

theorem exists_leave {x : Exports} (hx : x.WF) (ids : List ExportId) : ∃ gone, x.Leave ids gone := by
  induction ids using List.reverseRecOn with
  | nil =>
      refine ⟨[], by simp, fun id => ?_, rfl, .refl _⟩
      have hcounted := hx.counted id
      simp only [List.not_mem_nil, false_iff, List.count_nil, Nat.le_zero, not_exists, not_and]
      exact fun e he => Nat.ne_of_gt (hcounted e he)
  | append_singleton ids id ih =>
      obtain ⟨gone, hgone⟩ := ih
      have hcount : (ids ++ [id]).count id = ids.count id + 1 := by simp
      have hleft := (removed_release hx ids).get? id
      rcases releaseOne_cases (wf_release hx ids) id with
        ⟨hnone, heq⟩ | ⟨d, hd, hlast, heq⟩ | ⟨d, hd, hmore, heq⟩ <;> rw [← release_append_one] at heq
      · -- the id is invalid at this turn, so whatever there was of it is gone
        refine ⟨gone, hgone.stay (by rw [heq]) (by rw [heq]) fun e he => ?_⟩
        have hall := (get?_release_eq_none_iff hx ids id).1 hnone
        rw [Exports.refs, he, Option.map_some, Option.getD_some] at hall
        omega
      · -- one reference is left, the last of those that there were at the start
        rw [hd] at hleft
        obtain ⟨e, he, hcounted⟩ := Option.bind_eq_some_iff.1 hleft.symm
        split at hcounted
        · obtain rfl := Option.some.inj hcounted
          have hfew : e.refs = ids.count id + 1 := by
            simp only at hlast
            omega
          refine ⟨gone ++ [id], hgone.leave he hfew (by rw [heq]) ?_⟩
          rw [heq]
          exact Slots.free_erase hd
        · exact absurd hcounted (by simp)
      · refine ⟨gone, hgone.stay (by rw [heq]) (by rw [heq]; rfl) fun e he => ?_⟩
        rw [hd, he, Option.bind_some] at hleft
        split at hleft
        · obtain rfl := Option.some.inj hleft
          simp only at hmore
          omega
        · exact absurd hleft (by simp)

/-! ## The whole list -/

/-- What giving references back comes to, whichever they are. -/
structure Releases (x : Exports) (ids : List ExportId) : Prop where
  /-- Each id is counted down by as often as it stands in the list, and not below zero. -/
  refs : ∀ id, (x.release ids).exports.refs id = x.refs id - ids.count id
  /-- An export stays as it is, but for its count, if not all references to it are given back. -/
  stays : ∀ id e, x.table.get? id = some e → ids.count id < e.refs →
    (x.release ids).exports.table.get? id = some { e with refs := e.refs - ids.count id }
  /-- It leaves its slot if they are. -/
  leaves : ∀ id e, x.table.get? id = some e → e.refs ≤ ids.count id →
    (x.release ids).exports.table.get? id = none
  /-- No other slot is filled. -/
  empty : ∀ id, x.table.get? id = none → (x.release ids).exports.table.get? id = none
  /-- The index leads where it led, except to the exports that go away. -/
  index : ∀ k id, (x.release ids).exports.byIdentity.get? k = some id ↔
    x.byIdentity.get? k = some id ∧ ids.count id < x.refs id
  /-- For each export that goes away one reference is released, and its id is free again. -/
  gone : ∃ gone, x.Leave ids gone
  wf : (x.release ids).exports.WF
  /-- An id is in use at its turn exactly if there are more references than were given back before. -/
  turn : ∀ before id after, ids = before ++ id :: after →
    ((x.release before).exports.table.get? id = none ↔ x.refs id ≤ before.count id)
  /-- It fails exactly if an id is not in use at its turn. -/
  fails : (x.release ids).errors ≠ [] ↔ ∃ before id after, ids = before ++ id :: after ∧
    (x.release before).exports.table.get? id = none
  /-- The error names those ids, each as often as it is not, in order. -/
  error : (x.release ids).errors ≠ [] → (x.release ids).errors = [.invalidExports (x.invalidAmong ids)]

theorem releases {x : Exports} (hx : x.WF) (ids : List ExportId) : x.Releases ids := by
  have hremoved := removed_release hx ids
  have herrors : (x.release ids).errors ≠ [] ↔ x.invalidAmong ids ≠ [] := by
    unfold Release.errors
    rw [invalid_release hx]
    split <;> simp_all
  constructor
  case refs => exact hremoved.refs
  case stays =>
    intro id e he hmore
    rw [hremoved.get?, he, Option.bind_some, if_pos hmore]
  case leaves =>
    intro id e he hall
    rw [hremoved.get?, he, Option.bind_some, if_neg (Nat.not_lt.2 hall)]
  case empty =>
    intro id hnone
    rw [hremoved.get?, hnone, Option.bind_none]
  case index =>
    intro k id
    rw [hremoved.wf.index, hx.index, hremoved.get?]
    unfold Exports.refs
    cases x.table.get? id with
    | none => simp
    | some e => by_cases hmore : ids.count id < e.refs <;> simp [hmore]
  case gone => exact exists_leave hx ids
  case wf => exact hremoved.wf
  case turn => exact fun before id after _ => get?_release_eq_none_iff hx before id
  case fails =>
    rw [herrors]
    constructor
    · intro hsome
      obtain ⟨id, hid⟩ := List.exists_mem_of_ne_nil _ hsome
      obtain ⟨before, after, hturn⟩ := (x.mem_invalidAmong ids id).1 hid
      exact ⟨before, id, after, hturn⟩
    · rintro ⟨before, id, after, hturn⟩
      exact List.ne_nil_of_mem ((x.mem_invalidAmong ids id).2 ⟨before, after, hturn⟩)
  case error =>
    intro hsome
    unfold Release.errors
    rw [invalid_release hx, if_neg (herrors.1 hsome)]

/-- Three exports, the first counted twice and the last three times. -/
def countedExports : Exports :=
  (({} : Exports).describe [some ⟨"first", 5⟩, some ⟨"second", 6⟩, some ⟨"third", 7⟩, some ⟨"first", 5⟩,
    some ⟨"third", 7⟩, some ⟨"third", 7⟩]).value.2

/-- The first two exports go away, the second one first, and are given back once more after that. The third is
    counted down, whatever comes before it. -/
theorem releases_countedExports :
    let r := countedExports.release [2, 9, 0, 1, 1, 0, 2, 0]
    r.exports.refs 2 = 1 ∧ r.released = [⟨"second", 6⟩, ⟨"first", 5⟩] ∧ r.exports.table.free = [0, 1] ∧
      r.errors = [.invalidExports [9, 1, 0]] ∧ countedExports.Releases [2, 9, 0, 1, 1, 0, 2, 0] := by
  intro r
  have hx : countedExports.WF := (describe_spec wf_empty _).1.wf
  exact ⟨by decide +kernel, by decide +kernel, by decide +kernel, by decide +kernel, releases hx _⟩

end Exports

end Callee
