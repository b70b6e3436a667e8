import Callee.Proofs.Ledger

set_option autoImplicit false

/-! # Numbers of 32 bits

The counts of exports and their ids have 32 bits, so counting up is checked. Counting up what a message
names panics exactly if one of the counts outgrows them, or an export is new and there is no id left for it
(`Exports.panicked_describe_iff`). As long as the program has not panicked, all that stands in the table of
exports fits (`Reachable.fits`): the counts and ids of the exports are then the numbers of 32 bits that the
program works with. -/

namespace Callee

/-! ## The table of exports -/

namespace Exports

/-- Handing out these references takes the count of an export beyond 32 bits, or the number of ids because
    an export is new. -/
def Overflows (x : Exports) (ids : List ExportId) : Prop :=
  ∃ n ∈ ids, UInt32.size ≤ x.refs n + ids.count n ∨ x.refs n = 0 ∧ UInt32.size ≤ n + 1

/-- The counts and the number of ids have 32 bits. -/
structure Fits (x : Exports) : Prop where
  slots : x.table.slots.length < UInt32.size
  counts : ∀ n, x.refs n < UInt32.size

theorem fits_empty : ({} : Exports).Fits :=
  ⟨by simp, fun n => by simp [refs, Slots.get?]⟩

theorem refs_of_find? {x : Exports} (hx : x.WF) {cap : Capability} {n : ExportId} {e : Export}
    (h : x.find? cap = some (n, e)) : x.refs n = e.refs := by
  simp [refs, ((find?_eq_some_iff hx cap n e).1 h).1]

theorem refs_push {x : Exports} (hx : x.WF) (e : Export) : x.refs (x.table.push e).1 = 0 := by
  simp [refs, Slots.push_fst_free hx.slots e]

theorem overflows_singleton_iff {x : Exports} {n : ExportId} :
    x.Overflows [n] ↔ UInt32.size ≤ x.refs n + 1 ∨ x.refs n = 0 ∧ UInt32.size ≤ n + 1 := by
  simp [Overflows]

/-- Handing out references one after the other overflows if the first of them does, or the others after it. -/
theorem Added.overflows_cons_iff {x x' : Exports} {n : ExportId} (h : x.Added [n] x') (ids : List ExportId) :
    x.Overflows (n :: ids) ↔ x.Overflows [n] ∨ x'.Overflows ids := by
  have hcount (k : ExportId) : x'.refs k + ids.count k = x.refs k + (n :: ids).count k := by
    rw [h.refs, List.count_cons, List.count_cons, List.count_nil]
    omega
  rw [overflows_singleton_iff]
  constructor
  · rintro ⟨k, hk, hover⟩
    by_cases hin : k ∈ ids
    · rcases hover with hmany | ⟨hnew, hlast⟩
      · exact Or.inr ⟨k, hin, Or.inl (by rwa [hcount])⟩
      · by_cases hkn : k = n
        · subst hkn
          exact Or.inl (Or.inr ⟨hnew, hlast⟩)
        · refine Or.inr ⟨k, hin, Or.inr ⟨?_, hlast⟩⟩
          rw [h.refs, hnew, List.count_singleton, if_neg (by simpa using Ne.symm hkn)]
    · -- the first is then the only one of its export
      obtain rfl : k = n := (List.mem_cons.1 hk).resolve_right hin
      rw [List.count_cons_self, List.count_eq_zero_of_not_mem hin] at hover
      exact Or.inl hover
  · rintro (hfirst | ⟨k, hk, hover⟩)
    · refine ⟨n, List.mem_cons_self, hfirst.imp_left fun hmany => ?_⟩
      rw [List.count_cons_self]
      omega
    · refine ⟨k, List.mem_cons_of_mem n hk, hover.imp (fun hmany => by rwa [← hcount]) fun ⟨hnew, hlast⟩ => ?_⟩
      rw [h.refs] at hnew
      exact ⟨Nat.eq_zero_of_add_eq_zero_right hnew, hlast⟩

theorem panicked_add_iff {x : Exports} (hx : x.WF) (cap : Capability) :
    (x.add cap).panicked = true ↔ x.Overflows [(x.add cap).value.1] := by
  rw [overflows_singleton_iff]
  unfold add
  split
  · next n e hfind =>
      obtain ⟨hget, -⟩ := (find?_eq_some_iff hx cap n e).1 hfind
      have hpos := hx.counted n e hget
      simp only [refs_of_find? hx hfind, decide_eq_true_eq]
      omega
  · next hfind =>
      have hzero := refs_push hx { refs := 1, cap := cap }
      have hone : ¬ UInt32.size ≤ 0 + 1 := by decide
      simp only [hzero, decide_eq_true_eq, hone, false_or, true_and]

/-- Counting up slot by slot panics exactly if the counts do not fit in the end. -/
theorem panicked_describe_iff {x : Exports} (hx : x.WF) (caps : List (Option Capability)) :
    (x.describe caps).panicked = true ↔ x.Overflows ((x.describe caps).value.1.filterMap id) := by
  induction caps generalizing x with
  | nil => exact iff_of_false Bool.false_ne_true (by simp [Overflows])
  | cons slot rest ih =>
      cases slot with
      | none =>
          rw [panicked_describe_none]
          exact ih hx
      | some cap =>
          have hone := (add_spec hx cap).1
          rw [panicked_describe_some, Bool.or_eq_true, panicked_add_iff hx, ih hone.wf]
          exact (hone.overflows_cons_iff _).symm

/-! ### What goes on fitting -/

theorem length_push {t : Slots Export} (h : t.slots.length < UInt32.size) {e : Export}
    (hid : (t.push e).1 + 1 < UInt32.size) : (t.push e).2.slots.length < UInt32.size := by
  unfold Slots.push at hid ⊢
  split at hid
  · simpa using h
  · simpa using hid

theorem fits_add {x : Exports} (hx : x.WF) (h : x.Fits) {cap : Capability}
    (hadd : (x.add cap).panicked = false) : (x.add cap).value.2.Fits where
  slots := by
    unfold add at hadd ⊢
    split at hadd
    · simpa [Slots.set] using h.slots
    · exact length_push h.slots (Nat.lt_of_not_le (of_decide_eq_false hadd))
  counts n := by
    have hfew : ¬ x.Overflows [(x.add cap).value.1] := by simp [← panicked_add_iff hx, hadd]
    rw [overflows_singleton_iff] at hfew
    have hn := h.counts n
    rw [(add_spec hx cap).1.refs, List.count_singleton]
    split
    · next heq =>
        obtain rfl : (x.add cap).value.1 = n := by simpa using heq
        omega
    · exact hn

theorem fits_describe {x : Exports} (hx : x.WF) (h : x.Fits) {caps : List (Option Capability)}
    (hdescribe : (x.describe caps).panicked = false) : (x.describe caps).value.2.Fits := by
  induction caps generalizing x with
  | nil => exact h
  | cons slot rest ih =>
      cases slot with
      | none => exact ih hx h (x.panicked_describe_none rest ▸ hdescribe)
      | some cap =>
          rw [panicked_describe_some, Bool.or_eq_false_iff] at hdescribe
          obtain ⟨hone, hrest⟩ := hdescribe
          exact ih (add_spec hx cap).1.wf (fits_add hx h hone) hrest

theorem fits_release {x : Exports} (hx : x.WF) (h : x.Fits) (ids : List ExportId) :
    (x.release ids).exports.Fits where
  slots := (x.length_release ids).symm ▸ h.slots
  counts n := by
    rw [(removed_release hx ids).refs]
    exact Nat.lt_of_le_of_lt (Nat.sub_le _ _) (h.counts n)

theorem fits_writeDescriptors {x : Exports} (hx : x.WF) (h : x.Fits) {m : Message}
    (hwrite : (x.writeDescriptors m).panicked = false) : (x.writeDescriptors m).value.2.2.Fits := by
  rw [panicked_writeDescriptors, Bool.or_eq_false_iff] at hwrite
  obtain ⟨-, hrest⟩ := hwrite
  rw [value_writeDescriptors]
  split at hrest
  · exact h
  · have hfits := fits_describe hx h hrest
    dsimp only
    split <;> exact hfits

theorem wf_writeDescriptors {x : Exports} (hx : x.WF) (m : Message) :
    (x.writeDescriptors m).value.2.2.WF := by
  rcases writeDescriptors_spec hx m with ⟨e, -, hsame, -⟩ | ⟨ids, -, hwritten⟩
  · exact hsame.symm ▸ hx
  · exact hwritten.added.wf

/-- Writing out results leaves a table that is in order, and one that fits unless it panics. -/
theorem fits_writeResults {x : Exports} (hx : x.WF) (m : Message) (down : Bool) :
    (x.writeResults m down).exports.WF ∧
      ((x.writeResults m down).panicked = false → x.Fits → (x.writeResults m down).exports.Fits) := by
  have hwf := wf_writeDescriptors hx m.ensureResults.1
  have hfits (h : x.Fits) := fits_writeDescriptors hx h (m := m.ensureResults.1)
  unfold writeResults
  dsimp only
  split
  · exact ⟨hx, fun _ h => h⟩
  · split <;>
      next heq =>
        rw [heq] at hwf hfits
        exact ⟨hwf, fun hwrite h => hfits h hwrite⟩

end Exports

namespace Connection

/-! ## The exports of a connection -/

/-- What the program works with fits as long as it has not panicked. -/
structure Fitting (c : Connection) : Prop where
  exports : c.exports.WF
  fits : c.panicked = false → c.exports.Fits

theorem Fitting.of_eq {c c' : Connection} (hc : c.Fitting) (hexports : c'.exports = c.exports)
    (hpanicked : c'.panicked = c.panicked) : c'.Fitting where
  exports := hexports ▸ hc.exports
  fits h := hexports ▸ hc.fits (hpanicked ▸ h)

theorem Fitting.beginReturn {c : Connection} (hc : c.Fitting) (id : AnswerId) (result : Except Error Unit) :
    (c.beginReturn id result).2.Fitting := by
  unfold Connection.beginReturn
  split
  · exact hc.of_eq rfl rfl
  · dsimp only
    split
    · exact hc.of_eq rfl rfl
    · next e _ =>
        unfold returnResults
        simp only [reportAll_shape]
        obtain ⟨hwf, hfits⟩ := Exports.fits_writeResults hc.exports (c.messages.message e) c.isDown
        refine ⟨hwf, fun h => ?_⟩
        obtain ⟨hbefore, hwritten⟩ := Bool.or_eq_false_iff.1 h
        exact hfits hwritten (hc.fits hbefore)
    · unfold returnError
      dsimp only
      split
      · exact hc.of_eq rfl rfl
      · exact hc.of_eq rfl rfl

/-- Nothing grows past its 32 bits without a panic. -/
theorem fitting_rule : FullRule fun c c' => c.Fitting → c'.Fitting where
  trans h h' hc := h' (h hc)
  quiet h hc := hc.of_eq (congrArg Books.exports h) (congrArg Books.panicked h)
  begins _ id result hc := hc.beginReturn id result
  ends c id hc := by
    cases ha : c.answers.get? id with
    | none =>
        rw [c.endReturn_of_none ha]
        exact hc
    | some a =>
        obtain ⟨hs, heq⟩ := c.endReturn_shape ha
        rw [heq]
        exact hc.of_eq rfl rfl
  admits c id token hc := by
    cases ha : c.answers.get? id with
    | some a =>
        rw [c.newAnswer_of_live token ha]
        exact hc.of_eq rfl rfl
    | none =>
        obtain ⟨admission, ms, hs, heq, -⟩ := c.newAnswer_shape token ha
        rw [heq]
        exact hc.of_eq rfl rfl
  breaks c e hc := by
    rcases c.beginDisconnect_shape e with ⟨heq, -⟩ | ⟨-, ms, hs, p, heq, -⟩
    · rw [heq]
      exact hc
    · rw [heq]
      exact ⟨Exports.wf_empty, fun _ => Exports.fits_empty⟩
  works _ h hc := hc.of_eq (congrArg Books.exports h) (congrArg Books.panicked h)
  cancels c id hc := by
    cases ha : c.answers.get? id with
    | none =>
        rw [c.cancelReturn_of_none ha]
        exact hc.of_eq rfl rfl
    | some a =>
        obtain ⟨hs, heq⟩ := c.cancelReturn_shape ha
        rw [heq]
        exact hc.of_eq rfl rfl
  allocates c id size hc := by
    rcases c.allocateResults_shape id size with h | ⟨a, e, ms, -, -, h⟩
    · rwa [h]
    · rw [h]
      exact hc.of_eq rfl rfl
  boots c id cap hc := by
    rcases c.setBootstrap_shape id cap with h | ⟨a, e, ms, -, -, h⟩
    · rwa [h]
    · rw [h]
      exact hc.of_eq rfl rfl
  routes c id name hc := by
    rcases c.setPipeline_shape id name with h | ⟨a, -, -, h⟩
    · rwa [h]
    · rw [h]
      exact hc.of_eq rfl rfl
  edits c ref change hc := hc.of_eq rfl rfl
  finishes c id releaseCaps hc := by
    cases ha : c.answers.get? id with
    | none =>
        rw [c.finish_of_none releaseCaps ha]
        exact hc.of_eq rfl rfl
    | some a =>
        obtain ⟨hs, ts, heq⟩ := c.finish_shape releaseCaps ha
        rw [heq]
        exact ⟨Exports.wf_release hc.exports _, fun h => Exports.fits_release hc.exports (hc.fits h) _⟩

/-- As long as the program has not panicked, the counts and ids of the exports are numbers of 32 bits. -/
theorem Reachable.fits {c : Connection} (hc : Reachable c) (h : c.panicked = false) : c.exports.Fits :=
  (fitting_rule.reachable (fun _ => ⟨Exports.wf_empty, fun _ => Exports.fits_empty⟩) hc).fits h

end Connection

end Callee
