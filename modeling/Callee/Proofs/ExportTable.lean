import Callee.Exports.Basic
import Callee.Proofs.Tables
import Mathlib.Data.List.Forall2
import Mathlib.Data.List.Induction

set_option autoImplicit false

/-! # The table of exports

`Slots.WF` says that the free ids of a slot table are its empty slots, lowest first; `Exports.WF` adds
that the index leads to each export by its identity and that every export is counted. For each operation
there is one statement of what it makes of the table: `add` and `describe` count up, `release` counts
down, and an export that is counted keeps its capability. -/

namespace Callee

/-! ## Slots -/

namespace Slots

variable {α : Type}

/-- The free ids are the empty slots, lowest first. -/
structure WF (t : Slots α) : Prop where
  ascending : t.free.Pairwise (· < ·)
  mem_free : ∀ id, id ∈ t.free ↔ id < t.slots.length ∧ t.get? id = none

theorem wf_empty : ({} : Slots α).WF := ⟨by simp, by simp⟩

theorem lt_of_get? {t : Slots α} {id : ExportId} {v : α} (h : t.get? id = some v) :
    id < t.slots.length := by
  unfold get? at h
  by_cases hlt : id < t.slots.length
  · exact hlt
  · rw [List.getElem?_eq_none (Nat.le_of_not_lt hlt)] at h
    exact absurd h (by simp)

theorem get?_of_slots {t t' : Slots α} {id : ExportId} {o : Option α} (hlt : id < t.slots.length)
    (h : t'.slots = t.slots.set id o) (j : ExportId) :
    t'.get? j = if j = id then o else t.get? j := by
  unfold get?
  rw [h, List.getElem?_set]
  by_cases hj : j = id
  · simp [hj, hlt]
  · have hne : ¬ id = j := fun he => hj he.symm
    simp [hj, hne]

theorem get?_set {t : Slots α} {id : ExportId} {w : α} (h : t.get? id = some w) (v : α)
    (j : ExportId) : (t.set id v).get? j = if j = id then some v else t.get? j :=
  get?_of_slots (lt_of_get? h) rfl j

theorem get?_erase (t : Slots α) (id j : ExportId) :
    (t.erase id).2.get? j = if j = id then none else t.get? j := by
  cases h : t.get? id with
  | none =>
      simp only [erase, h]
      split
      · next hj => rw [hj, h]
      · rfl
  | some v =>
      simp only [erase, h]
      exact get?_of_slots (t := t) (lt_of_get? h) rfl j

theorem push_fst_free {t : Slots α} (ht : t.WF) (v : α) : t.get? (t.push v).1 = none := by
  unfold push
  split
  · next id rest hfree => exact ((ht.mem_free id).1 (by simp [hfree])).2
  · simp [get?]

theorem get?_push {t : Slots α} (ht : t.WF) (v : α) (j : ExportId) :
    (t.push v).2.get? j = if j = (t.push v).1 then some v else t.get? j := by
  unfold push
  split
  · next id rest hfree =>
      exact get?_of_slots ((ht.mem_free id).1 (by simp [hfree])).1 rfl j
  · unfold get?
    rw [List.getElem?_append]
    by_cases hj : j < t.slots.length
    · simp [hj, Nat.ne_of_lt hj]
    · by_cases he : j = t.slots.length
      · simp [he]
      · have hgt : t.slots.length < j := Nat.lt_of_le_of_ne (Nat.le_of_not_lt hj) (Ne.symm he)
        have hout : ¬ j - t.slots.length = 0 := Nat.sub_ne_zero_of_lt hgt
        simp [hj, he, hout]

/-! ### What keeps the free ids right -/

theorem pairwise_insertAscending {id : ExportId} {ids : List ExportId} (h : ids.Pairwise (· < ·))
    (hnew : id ∉ ids) : (insertAscending id ids).Pairwise (· < ·) := by
  induction ids with
  | nil => simp [insertAscending]
  | cons first rest ih =>
      obtain ⟨hfirst, hrest⟩ := List.pairwise_cons.1 h
      have hne : id ≠ first := fun he => hnew (by simp [he])
      have hout : id ∉ rest := fun hin => hnew (List.mem_cons_of_mem _ hin)
      unfold insertAscending
      split
      · next hle =>
          have hlt : id < first := Nat.lt_of_le_of_ne hle hne
          refine List.pairwise_cons.2 ⟨fun j hj => ?_, h⟩
          rcases List.mem_cons.1 hj with rfl | hj
          · exact hlt
          · exact Nat.lt_trans hlt (hfirst j hj)
      · next hle =>
          refine List.pairwise_cons.2 ⟨fun j hj => ?_, ih hrest hout⟩
          rcases (mem_insertAscending id j rest).1 hj with rfl | hj
          · exact Nat.lt_of_not_le hle
          · exact hfirst j hj

theorem wf_set {t : Slots α} (ht : t.WF) {id : ExportId} {w : α} (h : t.get? id = some w) (v : α) :
    (t.set id v).WF where
  ascending := ht.ascending
  mem_free j := by
    have hlen : (t.set id v).slots.length = t.slots.length := by simp [set]
    have hget := get?_set h v j
    show j ∈ t.free ↔ _
    rw [ht.mem_free j, hlen, hget]
    by_cases hj : j = id
    · simp [hj, h]
    · simp [hj]

theorem wf_erase {t : Slots α} (ht : t.WF) (id : ExportId) : (t.erase id).2.WF := by
  cases h : t.get? id with
  | none => simpa [erase, h] using ht
  | some v =>
      have hout : id ∉ t.free := fun hin => by simp [((ht.mem_free id).1 hin).2] at h
      refine ⟨?_, fun j => ?_⟩
      · simp only [erase, h]
        exact pairwise_insertAscending ht.ascending hout
      · have hget := t.get?_erase id j
        simp only [erase, h] at hget ⊢
        rw [mem_insertAscending, ht.mem_free, hget, List.length_set]
        by_cases hj : j = id
        · simp [hj, lt_of_get? h]
        · simp [hj]

theorem wf_push {t : Slots α} (ht : t.WF) (v : α) : (t.push v).2.WF := by
  have hget := get?_push ht v
  cases hfree : t.free with
  | nil =>
      simp only [push, hfree] at hget ⊢
      refine ⟨by simp, fun j => ?_⟩
      rw [hget]
      by_cases hj : j = t.slots.length
      · simp [hj]
      · -- no slot below the new one is empty
        have hnone := ht.mem_free j
        rw [hfree] at hnone
        simp only [hj, if_false, List.length_append, List.length_singleton, List.not_mem_nil,
          false_iff] at hnone ⊢
        rintro ⟨hlt, hempty⟩
        exact hnone ⟨Nat.lt_of_le_of_ne (Nat.le_of_lt_succ hlt) hj, hempty⟩
  | cons id rest =>
      obtain ⟨hfirst, hrest⟩ := List.pairwise_cons.1 (hfree ▸ ht.ascending)
      simp only [push, hfree] at hget ⊢
      refine ⟨hrest, fun j => ?_⟩
      rw [hget, List.length_set]
      have hmem := ht.mem_free j
      rw [hfree, List.mem_cons] at hmem
      by_cases hj : j = id
      · have hout : id ∉ rest := fun hin => Nat.lt_irrefl _ (hfirst id hin)
        simp [hj, hout]
      · simpa [hj] using hmem

end Slots

/-! ## Exports -/

namespace Exports

/-- The references to an export that the peer holds: none if its slot is empty. -/
def refs (x : Exports) (id : ExportId) : Nat :=
  ((x.table.get? id).map Export.refs).getD 0

/-- The index leads to each export by its identity, and every export is counted. -/
structure WF (x : Exports) : Prop where
  slots : x.table.WF
  index : ∀ k id, x.byIdentity.get? k = some id ↔
    ∃ e, x.table.get? id = some e ∧ e.cap.identity = k
  counted : ∀ id e, x.table.get? id = some e → 0 < e.refs

theorem wf_empty : ({} : Exports).WF :=
  ⟨Slots.wf_empty, fun k id => by simp [Slots.get?],
    fun id e h => by simp [Slots.get?] at h⟩

theorem refs_pos_iff {x : Exports} (hx : x.WF) (id : ExportId) :
    0 < x.refs id ↔ ∃ e, x.table.get? id = some e := by
  cases h : x.table.get? id with
  | none => simp [refs, h]
  | some e => simp [refs, h, hx.counted id e h]

theorem find?_eq_some_iff {x : Exports} (hx : x.WF) (cap : Capability) (id : ExportId) (e : Export) :
    x.find? cap = some (id, e) ↔ x.table.get? id = some e ∧ e.cap.identity = cap.identity := by
  unfold find?
  constructor
  · intro h
    split at h
    · next j hj =>
        obtain ⟨e', he', heq⟩ := Option.map_eq_some_iff.1 h
        obtain ⟨rfl, rfl⟩ := Prod.mk.inj heq
        obtain ⟨e'', he'', hid⟩ := (hx.index _ j).1 hj
        obtain rfl : e' = e'' := Option.some.inj (he'.symm.trans he'')
        exact ⟨he', hid⟩
    · exact absurd h (by simp)
  · rintro ⟨he, hid⟩
    rw [(hx.index cap.identity id).2 ⟨e, he, hid⟩]
    simp [he]

theorem find?_eq_none {x : Exports} (hx : x.WF) {cap : Capability} (h : x.find? cap = none)
    {id : ExportId} {e : Export} (he : x.table.get? id = some e) : e.cap.identity ≠ cap.identity := by
  intro hid
  rw [(find?_eq_some_iff hx cap id e).2 ⟨he, hid⟩] at h
  exact absurd h (by simp)

/-- An export is there for a capability. -/
def Names (x : Exports) (id : ExportId) (cap : Capability) : Prop :=
  ∃ e, x.table.get? id = some e ∧ e.cap.identity = cap.identity

/-- The index leads from one identity to one id, so exports agree exactly if their capabilities do. -/
theorem names_eq_iff {x : Exports} (hx : x.WF) {n n' : ExportId} {cap cap' : Capability}
    (h : x.Names n cap) (h' : x.Names n' cap') : n = n' ↔ cap.identity = cap'.identity := by
  obtain ⟨e, he, hid⟩ := h
  obtain ⟨e', he', hid'⟩ := h'
  constructor
  · rintro rfl
    obtain rfl := Option.some.inj (he.symm.trans he')
    exact hid.symm.trans hid'
  · intro hsame
    have hfirst := (hx.index cap.identity n).2 ⟨e, he, hid⟩
    have hsecond := (hx.index cap.identity n').2 ⟨e', he', hid'.trans hsame.symm⟩
    exact Option.some.inj (hfirst.symm.trans hsecond)

/-- Every export is still there in a later table, with the same capability. -/
def KeptIn (x x' : Exports) : Prop :=
  ∀ id e, x.table.get? id = some e → ∃ e', x'.table.get? id = some e' ∧ e'.cap = e.cap

theorem KeptIn.refl (x : Exports) : x.KeptIn x := fun _ e h => ⟨e, h, rfl⟩

theorem KeptIn.trans {x x' x'' : Exports} (h : x.KeptIn x') (h' : x'.KeptIn x'') : x.KeptIn x'' := by
  intro id e he
  obtain ⟨e', he', hcap⟩ := h id e he
  obtain ⟨e'', he'', hcap'⟩ := h' id e' he'
  exact ⟨e'', he'', hcap'.trans hcap⟩

theorem KeptIn.names {x x' : Exports} (h : x.KeptIn x') {id : ExportId} {cap : Capability}
    (hn : x.Names id cap) : x'.Names id cap := by
  obtain ⟨e, he, hid⟩ := hn
  obtain ⟨e', he', hcap⟩ := h id e he
  exact ⟨e', he', by rw [hcap, hid]⟩

/-! ### One export changes -/

theorem wf_recount {x : Exports} (hx : x.WF) {id : ExportId} {e : Export}
    (he : x.table.get? id = some e) {n : Nat} (hn : 0 < n) :
    ({ x with table := x.table.set id { e with refs := n } } : Exports).WF where
  slots := Slots.wf_set hx.slots he _
  index k j := by
    show x.byIdentity.get? k = some j ↔ _
    rw [hx.index, Slots.get?_set he]
    by_cases hj : j = id
    · simp [hj, he]
    · simp [hj]
  counted j d hd := by
    rw [Slots.get?_set he] at hd
    split at hd
    · obtain rfl := Option.some.inj hd
      exact hn
    · exact hx.counted j d hd

/-- A capability without an export gets one in a free slot. -/
theorem wf_enter {x : Exports} (hx : x.WF) {cap : Capability} (hfind : x.find? cap = none)
    {id : ExportId} {table : Slots Export} (hfree : x.table.get? id = none) (hwf : table.WF)
    (hget : ∀ j, table.get? j = if j = id then some { refs := 1, cap := cap } else x.table.get? j) :
    ({ table := table, byIdentity := x.byIdentity.insert cap.identity id } : Exports).WF where
  slots := hwf
  index k j := by
    show (x.byIdentity.insert cap.identity id).get? k = some j ↔ ∃ d, table.get? j = some d ∧ _
    rw [hget, Table.get?_insert]
    by_cases hk : k = cap.identity
    · subst hk
      rw [if_pos rfl]
      by_cases hj : j = id
      · simp [hj]
      · have hne : ¬ id = j := fun he => hj he.symm
        simp only [hj, if_false, Option.some.injEq, hne, false_iff, not_exists, not_and]
        exact fun d hd => find?_eq_none hx hfind hd
    · rw [if_neg hk, hx.index]
      by_cases hj : j = id
      · simp [hj, hfree, Ne.symm hk]
      · simp [hj]
  counted j d hd := by
    rw [hget] at hd
    split at hd
    · obtain rfl := Option.some.inj hd
      exact Nat.one_pos
    · exact hx.counted j d hd

/-- An export goes away, and its identity leads nowhere. -/
theorem wf_leave {x : Exports} (hx : x.WF) {id : ExportId} {e : Export}
    (he : x.table.get? id = some e) :
    ({ table := (x.table.erase id).2, byIdentity := x.byIdentity.erase e.cap.identity } : Exports).WF where
  slots := Slots.wf_erase hx.slots id
  index k j := by
    show (x.byIdentity.erase e.cap.identity).get? k = some j ↔ _
    rw [Table.get?_erase, Slots.get?_erase]
    by_cases hk : k = e.cap.identity
    · subst hk
      simp only [if_true, reduceCtorEq, false_iff, not_exists, not_and]
      intro d hd hid
      split at hd
      · exact absurd hd (by simp)
      · next hj =>
          -- two exports of one identity would have one id
          have hfirst := (hx.index e.cap.identity id).2 ⟨e, he, rfl⟩
          have hsecond := (hx.index e.cap.identity j).2 ⟨d, hd, hid⟩
          exact hj (Option.some.inj (hsecond.symm.trans hfirst))
    · rw [if_neg hk, hx.index]
      by_cases hj : j = id
      · simp [hj, he, Ne.symm hk]
      · simp [hj]
  counted j d hd := by
    rw [Slots.get?_erase] at hd
    split at hd
    · exact absurd hd (by simp)
    · exact hx.counted j d hd

/-! ### Counting up -/

/-- What handing out references has made of a table: each id is counted up by as often as it stands in
    `ids`. -/
structure Added (x : Exports) (ids : List ExportId) (x' : Exports) : Prop where
  wf : x'.WF
  refs : ∀ id, x'.refs id = x.refs id + ids.count id
  kept : x.KeptIn x'

theorem added_recount {x : Exports} (hx : x.WF) {id : ExportId} {e : Export}
    (he : x.table.get? id = some e) :
    x.Added [id] { x with table := x.table.set id { e with refs := e.refs + 1 } } where
  wf := wf_recount hx he (Nat.succ_pos _)
  refs j := by
    unfold Exports.refs
    rw [Slots.get?_set he]
    by_cases hj : j = id
    · simp [hj, he]
    · simp [hj, Ne.symm hj]
  kept j d hd := by
    rw [Slots.get?_set he]
    by_cases hj : j = id
    · obtain rfl : d = e := Option.some.inj (hd.symm.trans (hj ▸ he))
      exact ⟨_, if_pos hj, rfl⟩
    · exact ⟨d, (if_neg hj).trans hd, rfl⟩

theorem added_enter {x : Exports} (hx : x.WF) {cap : Capability} (hfind : x.find? cap = none)
    {id : ExportId} {table : Slots Export} (hfree : x.table.get? id = none) (hwf : table.WF)
    (hget : ∀ j, table.get? j = if j = id then some { refs := 1, cap := cap } else x.table.get? j) :
    x.Added [id] { table := table, byIdentity := x.byIdentity.insert cap.identity id } where
  wf := wf_enter hx hfind hfree hwf hget
  refs j := by
    unfold Exports.refs
    rw [hget]
    by_cases hj : j = id
    · simp [hj, hfree]
    · simp [hj, Ne.symm hj]
  kept j d hd := by
    rw [hget]
    by_cases hj : j = id
    · rw [hj, hfree] at hd
      exact absurd hd (by simp)
    · exact ⟨d, (if_neg hj).trans hd, rfl⟩

theorem add_spec {x : Exports} (hx : x.WF) (cap : Capability) :
    x.Added [(x.add cap).value.1] (x.add cap).value.2 ∧ (x.add cap).value.2.Names (x.add cap).value.1 cap := by
  unfold add
  split
  · next id e hfind =>
      obtain ⟨he, hid⟩ := (find?_eq_some_iff hx cap id e).1 hfind
      exact ⟨added_recount hx he, { e with refs := e.refs + 1 },
        (Slots.get?_set he _ id).trans (if_pos rfl), hid⟩
  · next hfind =>
      have hfree := Slots.push_fst_free hx.slots { refs := 1, cap := cap }
      have hget := Slots.get?_push hx.slots { refs := 1, cap := cap }
      have hwf := Slots.wf_push hx.slots { refs := 1, cap := cap }
      exact ⟨added_enter hx hfind hfree hwf hget, { refs := 1, cap := cap },
        (hget _).trans (if_pos rfl), rfl⟩

theorem Added.refl {x : Exports} (hx : x.WF) : x.Added [] x := ⟨hx, by simp, .refl x⟩

theorem Added.trans {x x' x'' : Exports} {ids ids' : List ExportId} (h : x.Added ids x')
    (h' : x'.Added ids' x'') : x.Added (ids ++ ids') x'' := by
  refine ⟨h'.wf, fun id => ?_, h.kept.trans h'.kept⟩
  rw [h'.refs, h.refs, List.count_append, Nat.add_assoc]

/-- A descriptor says how the peer reaches the capability in a slot. -/
def Describes (x : Exports) : Option Capability → Descriptor → Prop
  | some cap, some id => x.Names id cap
  | none, none => True
  | _, _ => False

theorem describe_spec {x : Exports} (hx : x.WF) (caps : List (Option Capability)) :
    x.Added ((x.describe caps).value.1.filterMap id) (x.describe caps).value.2 ∧
      List.Forall₂ (x.describe caps).value.2.Describes caps (x.describe caps).value.1 := by
  induction caps generalizing x with
  | nil => exact ⟨.refl hx, .nil⟩
  | cons slot rest ih =>
      cases slot with
      | none =>
          obtain ⟨hadded, hrest⟩ := ih hx
          exact ⟨hadded, .cons trivial hrest⟩
      | some cap =>
          obtain ⟨hone, hnames⟩ := add_spec hx cap
          obtain ⟨hadded, hrest⟩ := ih hone.wf
          exact ⟨hone.trans hadded, .cons (hadded.kept.names hnames) hrest⟩

/-! ### Counting down -/

/-- What giving references back has made of a table: each id is counted down by as often as it stands in
    `ids`, and an export goes away with its last reference. -/
structure Removed (x : Exports) (ids : List ExportId) (x' : Exports) : Prop where
  wf : x'.WF
  get? : ∀ id, x'.table.get? id = (x.table.get? id).bind fun e =>
    if ids.count id < e.refs then some { e with refs := e.refs - ids.count id } else none

theorem Removed.refs {x x' : Exports} {ids : List ExportId} (h : x.Removed ids x') (id : ExportId) :
    x'.refs id = x.refs id - ids.count id := by
  unfold Exports.refs
  rw [h.get?]
  cases x.table.get? id with
  | none => simp
  | some e =>
      simp only [Option.bind_some]
      split
      · simp
      · next hle => simp [Nat.sub_eq_zero_of_le (Nat.le_of_not_lt hle)]

/-- An export that is left has its capability from before. -/
theorem Removed.keptIn {x x' : Exports} {ids : List ExportId} (h : x.Removed ids x') :
    x'.KeptIn x := by
  intro id e' he'
  rw [h.get?] at he'
  obtain ⟨e, he, heq⟩ := Option.bind_eq_some_iff.1 he'
  split at heq
  · obtain rfl := Option.some.inj heq
    exact ⟨e, he, rfl⟩
  · exact absurd heq (by simp)

theorem Removed.refl {x : Exports} (hx : x.WF) : x.Removed [] x := by
  refine ⟨hx, fun id => ?_⟩
  cases h : x.table.get? id with
  | none => rfl
  | some e => simp [hx.counted id e h]

/-- What taking back one reference makes of the slots, if the export with that id does so. -/
theorem removed_one {x x' : Exports} (hx : x.WF) (hx' : x'.WF) {id : ExportId}
    (hown : x'.table.get? id = (x.table.get? id).bind fun e =>
      if 1 < e.refs then some { e with refs := e.refs - 1 } else none)
    (hother : ∀ j, j ≠ id → x'.table.get? j = x.table.get? j) : x.Removed [id] x' where
  wf := hx'
  get? j := by
    by_cases hj : j = id
    · rw [hj, hown, List.count_singleton_self]
    · rw [hother j hj, List.count_singleton, if_neg (by simpa using Ne.symm hj)]
      cases hd : x.table.get? j with
      | none => rfl
      | some d => simp [hx.counted j d hd]

/-- Taking back one reference: it is invalid, the last one, or one of several. -/
theorem releaseOne_cases {r : Release} (hr : r.exports.WF) (id : ExportId) :
    r.exports.table.get? id = none ∧ releaseOne r id = { r with invalid := r.invalid ++ [id] } ∨
      (∃ e, r.exports.table.get? id = some e ∧ e.refs = 1 ∧ releaseOne r id =
        { r with
          exports :=
            { table := (r.exports.table.erase id).2
              byIdentity := r.exports.byIdentity.erase e.cap.identity }
          released := r.released ++ [e.cap] }) ∨
      ∃ e, r.exports.table.get? id = some e ∧ 1 < e.refs ∧ releaseOne r id =
        { r with
          exports := { r.exports with table := r.exports.table.set id { e with refs := e.refs - 1 } } } := by
  cases he : r.exports.table.get? id with
  | none => exact Or.inl ⟨rfl, by simp [releaseOne, he]⟩
  | some e =>
      have hcounted := hr.counted id e he
      by_cases hlast : e.refs = 1
      · exact Or.inr (Or.inl ⟨e, rfl, hlast, by simp [releaseOne, he, hlast]⟩)
      · have hmore : ¬ e.refs - 1 = 0 := by omega
        exact Or.inr (Or.inr ⟨e, rfl, by omega, by simp [releaseOne, he, hmore]⟩)

/-- One reference is taken back if the peer holds one, and nothing changes otherwise. -/
theorem removed_releaseOne {r : Release} (hr : r.exports.WF) (id : ExportId) :
    r.exports.Removed [id] (releaseOne r id).exports := by
  rcases releaseOne_cases hr id with ⟨hnone, heq⟩ | ⟨e, he, hlast, heq⟩ | ⟨e, he, hmore, heq⟩ <;> rw [heq]
  · exact removed_one hr hr (by rw [hnone]; rfl) fun j _ => rfl
  · refine removed_one hr (wf_leave hr he) ?_ fun j hj => ?_
    · simp [Slots.get?_erase, he, hlast]
    · exact (r.exports.table.get?_erase id j).trans (if_neg hj)
  · refine removed_one hr (wf_recount hr he (Nat.sub_pos_of_lt hmore)) ?_ fun j hj => ?_
    · rw [Slots.get?_set he, if_pos rfl, he, Option.bind_some, if_pos hmore]
    · exact (Slots.get?_set he _ j).trans (if_neg hj)

theorem Removed.trans {x x' x'' : Exports} {ids ids' : List ExportId} (h : x.Removed ids x')
    (h' : x'.Removed ids' x'') : x.Removed (ids ++ ids') x'' := by
  refine ⟨h'.wf, fun id => ?_⟩
  rw [h'.get?, h.get?, List.count_append]
  cases x.table.get? id with
  | none => rfl
  | some e =>
      simp only [Option.bind_some]
      by_cases hfirst : ids.count id < e.refs
      · rw [if_pos hfirst, Option.bind_some]
        by_cases hboth : ids.count id + ids'.count id < e.refs
        · have hsecond : ids'.count id < e.refs - ids.count id := by omega
          simp [hboth, hsecond, Nat.sub_sub]
        · have hsecond : ¬ ids'.count id < e.refs - ids.count id := by omega
          simp [hboth, hsecond]
      · have hboth : ¬ ids.count id + ids'.count id < e.refs := by omega
        simp [hfirst, hboth]

theorem release_append_one (x : Exports) (ids : List ExportId) (id : ExportId) :
    x.release (ids ++ [id]) = releaseOne (x.release ids) id := by
  unfold release
  rw [List.foldl_append]
  rfl

/-- References that are given back are taken back, whichever they are. -/
theorem removed_release {x : Exports} (hx : x.WF) (ids : List ExportId) :
    x.Removed ids (x.release ids).exports := by
  induction ids using List.reverseRecOn with
  | nil => exact .refl hx
  | append_singleton ids id ih =>
      rw [release_append_one]
      exact ih.trans (removed_releaseOne ih.wf id)

theorem wf_release {x : Exports} (hx : x.WF) (ids : List ExportId) : (x.release ids).exports.WF :=
  (removed_release hx ids).wf

/-- A slot that is emptied is still there. -/
theorem length_release (x : Exports) (ids : List ExportId) :
    (x.release ids).exports.table.slots.length = x.table.slots.length := by
  have hone : ∀ (r : Release) (id : ExportId),
      (releaseOne r id).exports.table.slots.length = r.exports.table.slots.length := by
    intro r id
    unfold releaseOne
    split
    · rfl
    · next e he =>
        split
        · simp [Slots.erase, he]
        · simp [Slots.set]
  have hall : ∀ r : Release, (ids.foldl releaseOne r).exports.table.slots.length =
      r.exports.table.slots.length := by
    induction ids with
    | nil => exact fun r => rfl
    | cons id rest ih => exact fun r => (ih (releaseOne r id)).trans (hone r id)
  exact hall { exports := x }

/-- An id is in use at its turn if there are more references than were given back before. -/
theorem get?_release_eq_none_iff {x : Exports} (hx : x.WF) (ids : List ExportId) (id : ExportId) :
    (x.release ids).exports.table.get? id = none ↔ x.refs id ≤ ids.count id := by
  have hrefs := (removed_release hx ids).refs id
  have hpos := refs_pos_iff (wf_release hx ids) id
  rw [hrefs, ← Option.isSome_iff_exists] at hpos
  rw [← Option.not_isSome_iff_eq_none, ← hpos]
  omega

/-- Giving back references that the peer holds: none is invalid. -/
theorem release_spec {x : Exports} (hx : x.WF) {ids : List ExportId}
    (hle : ∀ id, ids.count id ≤ x.refs id) :
    x.Removed ids (x.release ids).exports ∧ (x.release ids).invalid = [] := by
  refine ⟨removed_release hx ids, ?_⟩
  induction ids using List.reverseRecOn with
  | nil => rfl
  | append_singleton ids id ih =>
      have hbefore : ∀ j, ids.count j ≤ x.refs j := fun j => by
        have := hle j
        rw [List.count_append] at this
        omega
      have hturn : (x.release ids).exports.table.get? id ≠ none := by
        rw [Ne, get?_release_eq_none_iff hx]
        have := hle id
        rw [List.count_append, List.count_singleton_self] at this
        omega
      rw [release_append_one]
      rcases releaseOne_cases (wf_release hx ids) id with ⟨hnone, -⟩ | ⟨e, -, -, heq⟩ | ⟨e, -, -, heq⟩
      · exact absurd hnone hturn
      · rw [heq]
        exact ih hbefore
      · rw [heq]
        exact ih hbefore

/-- Each reference that is given back is one that the peer holds at its turn. -/
theorem refs_pos_of_release {x : Exports} (hx : x.WF) {before after : List ExportId} {id : ExportId}
    (hle : ∀ j, (before ++ id :: after).count j ≤ x.refs j) :
    0 < (x.release before).exports.refs id := by
  have hid := hle id
  rw [List.count_append, List.count_cons_self] at hid
  rw [(removed_release hx before).refs]
  omega

theorem wf_drain (x : Exports) : x.drain.2.WF := wf_empty

end Exports

end Callee
