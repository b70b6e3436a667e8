import Callee.Proofs.HandingOut

set_option autoImplicit false

/-! # Answers and exports reckon alike

The table of answers notes, for each answer, the references that were handed to the peer with its
results; the table of exports counts them. `Reckoning` is what the two have in common at all times while
the connection is up: together the answers note no reference more often than it is counted, and each
noted reference leads to the capability that stands in the message. Every operation keeps it
(`reckoning_rule`), so it holds of all connections that can come about. -/

namespace Callee

namespace Exports

theorem Matches.names {x x' : Exports} {caps : List (Option Capability)} {ids : List ExportId}
    (h : x.Matches caps ids) (hn : ∀ e ∈ ids, ∀ cap, x.Names e cap → x'.Names e cap) :
    x'.Matches caps ids := by
  intro i e he
  obtain ⟨cap, hcap, hnames⟩ := h i e he
  exact ⟨cap, hcap, hn e (List.mem_of_getElem? he) cap hnames⟩

theorem Matches.extends {x : Exports} {a b : Arena} {ids : List ExportId} (h : x.Matches a.caps ids)
    (hext : a.Extends b) : x.Matches b.caps ids := by
  intro i e he
  obtain ⟨cap, hcap, hnames⟩ := h i e he
  exact ⟨cap, hext.getElem? hcap, hnames⟩

theorem Removed.names {x x' : Exports} {ids : List ExportId} (h : x.Removed ids x') {e : ExportId}
    (hpos : 0 < x'.refs e) {cap : Capability} (hn : x.Names e cap) : x'.Names e cap := by
  obtain ⟨exp, hexp, hid⟩ := hn
  have hget := h.get? e
  rw [hexp, Option.bind_some] at hget
  split at hget
  · exact ⟨_, hget, hid⟩
  · rw [Exports.refs, hget] at hpos
    exact absurd hpos (Nat.lt_irrefl _)

end Exports

namespace Books

/-- How often the answers together note a reference. -/
def noted (b : Books) (e : ExportId) : Nat := b.answers.total fun a => a.exports.count e

/-- What the record of an answer says of references is right. -/
structure InOrder (b : Books) (a : Answer) : Prop where
  /-- A return that is still open names no export, and none is noted for it. -/
  unbegun : ∀ e, a.message = some e → e.hosted = [] ∧ e.arena < b.messages.next ∧ a.exports = [] ∧
    a.state.resultsReady = false
  results_lt : ∀ r, a.results = some r → r.arena < b.messages.next
  ready : a.exports ≠ [] → a.state.resultsReady = true
  /-- What is noted leads to the capabilities of the message. -/
  named : b.link = .up → a.exports ≠ [] → ∃ r, a.results = some r ∧
    b.exports.Matches (b.messages.arena r.arena).caps a.exports

/-- The answers and the exports say the same. -/
structure Reckoning (b : Books) : Prop where
  exports : b.exports.WF
  filled : ∀ id, (b.messages.arena id).Filled
  answers : ∀ id a, b.answers.get? id = some a → b.InOrder a
  covers : b.link = .up → ∀ e, b.noted e ≤ b.exports.refs e

/-- While its return is open, an answer notes nothing. -/
theorem InOrder.exports_eq_nil {b : Books} {a : Answer} (h : b.InOrder a) (hopen : a.message ≠ none) :
    a.exports = [] := by
  obtain ⟨e, he⟩ := Option.ne_none_iff_exists'.1 hopen
  exact (h.unbegun e he).2.2.1

theorem InOrder.message_eq_none {b : Books} {a : Answer} (h : b.InOrder a)
    (hready : a.state.resultsReady = true) : a.message = none := by
  cases hmsg : a.message with
  | none => rfl
  | some e =>
      have hopen := (h.unbegun e hmsg).2.2.2
      rw [hready] at hopen
      exact absurd hopen (by simp)

theorem InOrder.mono {b d : Books} {a : Answer} (h : b.InOrder a)
    (hlink : d.link = .up → b.link = .up) (hm : b.messages.Extends d.messages)
    (hx : d.link = .up → ∀ e ∈ a.exports, ∀ cap, b.exports.Names e cap → d.exports.Names e cap) :
    d.InOrder a where
  unbegun e he := by
    obtain ⟨hhosted, hlt, hrest⟩ := h.unbegun e he
    exact ⟨hhosted, Nat.lt_of_lt_of_le hlt hm.next, hrest⟩
  results_lt r hr := Nat.lt_of_lt_of_le (h.results_lt r hr) hm.next
  ready := h.ready
  named hup hne := by
    obtain ⟨r, hr, hmatch⟩ := h.named (hlink hup) hne
    exact ⟨r, hr, (hmatch.names (hx hup)).extends (hm.arena _ (h.results_lt r hr))⟩

/-- What an answer keeps of its references while other parts of it change. -/
theorem InOrder.of_same {b : Books} {a a' : Answer} (h : b.InOrder a)
    (hexports : a'.exports = a.exports) (hresults : a'.results = a.results)
    (hready : a.state.resultsReady = true → a'.state.resultsReady = true)
    (hmessage : ∀ e, a'.message = some e → e.hosted = [] ∧ e.arena < b.messages.next ∧
      a.exports = [] ∧ a'.state.resultsReady = false) : b.InOrder a' where
  unbegun e he := by
    rw [hexports]
    exact hmessage e he
  results_lt r hr := h.results_lt r (hresults ▸ hr)
  ready hne := hready (h.ready (hexports ▸ hne))
  named hup hne := by
    rw [hexports] at hne ⊢
    rw [hresults]
    exact h.named hup hne

theorem noted_insert {b d : Books} {id : AnswerId} {a' : Answer}
    (h : d.answers = b.answers.insert id a') (e : ExportId) :
    d.noted e + (((b.answers.get? id).map fun a => a.exports.count e).getD 0) =
      b.noted e + a'.exports.count e := by
  unfold noted
  rw [h]
  exact b.answers.total_insert _ id a'

theorem noted_erase {b d : Books} {id : AnswerId} (h : d.answers = b.answers.erase id)
    (e : ExportId) :
    d.noted e + (((b.answers.get? id).map fun a => a.exports.count e).getD 0) = b.noted e := by
  unfold noted
  rw [h]
  exact b.answers.total_erase _ id

/-- Two answers together note no reference more often than all do. -/
theorem count_add_count_le {b : Books} {id id' : AnswerId} {a a' : Answer}
    (ha : b.answers.get? id = some a) (ha' : b.answers.get? id' = some a') (hne : id' ≠ id)
    (e : ExportId) : a.exports.count e + a'.exports.count e ≤ b.noted e := by
  have hsum := b.answers.total_erase (fun a => a.exports.count e) id
  have hle := (b.answers.erase id).le_total (fun a => a.exports.count e)
    ((b.answers.get?_erase_of_ne hne).trans ha')
  rw [ha, Option.map_some, Option.getD_some] at hsum
  unfold noted
  omega

/-- What keeps the reckoning when one answer is replaced by another that notes the same references, or
    leaves the table. -/
theorem Reckoning.replace {b d : Books} (hb : b.Reckoning) {id : AnswerId} {a a' : Answer}
    (ha : b.answers.get? id = some a) (hlink : d.link = b.link) (hx : d.exports = b.exports)
    (hm : b.messages.Extends d.messages)
    (hanswers : d.answers = b.answers.insert id a' ∨ d.answers = b.answers.erase id)
    (hexports : a'.exports = a.exports) (horder : d.InOrder a') : d.Reckoning := by
  refine ⟨hx ▸ hb.exports, hm.filled hb.filled, fun j x hj => ?_, fun hup e => ?_⟩
  · rcases Table.get?_of_replaced hanswers hj with ⟨-, rfl⟩ | ⟨-, hj⟩
    · exact horder
    · exact (hb.answers j x hj).mono (fun h => hlink ▸ h) hm fun _ _ _ _ h => hx ▸ h
  · have hcovers := hb.covers (hlink ▸ hup) e
    rw [hx]
    rcases hanswers with h | h
    · have hsum := noted_insert h e
      rw [ha, Option.map_some, Option.getD_some, hexports] at hsum
      omega
    · have hsum := noted_erase h e
      omega

/-- Rewriting an answer without touching what it notes, where it is or what it has sent. -/
theorem Reckoning.rewrite {b d : Books} (hb : b.Reckoning) {id : AnswerId} {a a' : Answer}
    (ha : b.answers.get? id = some a) (hlink : d.link = b.link) (hx : d.exports = b.exports)
    (hm : d.messages = b.messages)
    (hanswers : d.answers = b.answers.insert id a' ∨ d.answers = b.answers.erase id)
    (hexports : a'.exports = a.exports) (hresults : a'.results = a.results)
    (hready : a.state.resultsReady = true → a'.state.resultsReady = true)
    (hmessage : a'.message = none ∨ a'.message = a.message ∧
      a'.state.resultsReady = a.state.resultsReady) : d.Reckoning := by
  have hext : b.messages.Extends d.messages := by rw [hm]; exact .refl _
  have horder : d.InOrder a := (hb.answers id a ha).mono (fun h => hlink ▸ h) hext
    fun _ _ _ _ h => hx ▸ h
  refine hb.replace ha hlink hx hext hanswers hexports
    (horder.of_same hexports hresults hready fun e he => ?_)
  rcases hmessage with hnone | ⟨hsame, hstate⟩
  · exact absurd (hnone.symm.trans he) (by simp)
  · rw [hstate]
    exact horder.unbegun e (hsame ▸ he)

end Books

namespace Connection

open Books

/-! ## Messages over a step -/

theorem extends_reserve (c : Connection) : c.messages.Extends c.reserve.2.messages := by
  unfold reserve
  dsimp only
  split
  · exact .refl _
  · exact c.messages.extends_create _

/-- A reserved return is new, and names no export. -/
theorem reserveReturn_spec (c : Connection) (id : AnswerId) :
    c.messages.Extends (c.reserveReturn id).2.messages ∧
      ∀ e, (c.reserveReturn id).1 = .ok e →
        e.hosted = [] ∧ e.arena < (c.reserveReturn id).2.messages.next := by
  unfold reserveReturn
  split
  · exact ⟨.refl _, by simp⟩
  · split
    · next heq =>
        have hext := c.extends_reserve
        rw [heq] at hext
        exact ⟨hext, by simp⟩
    · next e c₁ heq =>
        have hext := c.extends_reserve
        have hlt : e.arena < c₁.messages.next := by
          unfold reserve at heq
          dsimp only at heq
          split at heq
          · exact absurd (congrArg Prod.fst heq) (by simp)
          · obtain ⟨he, hc⟩ := Prod.mk.inj heq
            obtain rfl := Except.ok.inj he
            rw [← hc]
            exact Nat.lt_succ_self _
        rw [heq] at hext
        dsimp only
        split
        · exact ⟨hext, by simp⟩
        · next m hstart =>
            obtain ⟨hwork, hnone⟩ := Message.worked_startReturn hstart
            refine ⟨hext.trans (MessageStore.extends_put hwork), fun e' he' => ?_⟩
            obtain rfl := Except.ok.inj he'
            exact ⟨hnone, hlt⟩

theorem extends_reserveAbort (c : Connection) (e : Error) :
    c.messages.Extends (c.reserveAbort e).2.messages := by
  have hext := c.extends_reserve
  unfold reserveAbort
  split
  · next heq => rw [heq] at hext; exact hext
  · next heq =>
      rw [heq] at hext
      dsimp only
      split
      · exact hext
      · next m hwrite => exact hext.trans (MessageStore.extends_put (Message.worked_writeAbort hwrite))

theorem extends_beginDisconnect (c : Connection) (e : Error) :
    c.messages.Extends (c.beginDisconnect e).2.messages := by
  unfold beginDisconnect
  split
  · exact .refl _
  · exact (c.breakLink e).extends_reserveAbort e

/-! ## Operations -/

theorem reckoning_of_eq {b b' : Books} (hb : b.Reckoning) (hlink : b'.link = b.link)
    (hanswers : b'.answers = b.answers) (hx : b'.exports = b.exports)
    (hm : b.messages.Extends b'.messages) : b'.Reckoning where
  exports := hx ▸ hb.exports
  filled := hm.filled hb.filled
  answers id a ha :=
    (hb.answers id a (hanswers ▸ ha)).mono (fun h => hlink ▸ h) hm fun _ _ _ _ h => hx ▸ h
  covers hup e := by
    unfold noted
    rw [hanswers, hx]
    exact hb.covers (hlink ▸ hup) e

/-- Working on an open return keeps the reckoning. -/
theorem reckoning_putReturn {c : Connection} (hb : c.books.Reckoning) {id : AnswerId} {a : Answer}
    {e : Envelope} {m : Message} (ha : c.answers.get? id = some a) (hopen : a.openReturn id = .ok e)
    (hwork : (c.messages.message e).Worked m) : (c.putReturn id a e m).books.Reckoning := by
  have horder := hb.answers id a ha
  have hmsg : a.message = some e := ((a.openReturn_eq_ok_iff id e).1 hopen).2
  obtain ⟨hhosted, hlt, hrest⟩ := horder.unbegun e hmsg
  have hext := MessageStore.extends_put hwork
  refine hb.replace ha rfl rfl hext (Or.inl rfl) rfl ?_
  refine (horder.mono (d := (c.putReturn id a e m).books) (fun h => h) hext fun _ _ _ _ h => h).of_same
    rfl rfl (fun h => h) fun e' he' => ?_
  obtain rfl := Option.some.inj he'
  exact ⟨hwork.hosted hhosted, hlt, hrest⟩

theorem reckoning_beginReturn {c : Connection} (hb : c.books.Reckoning) (id : AnswerId)
    (result : Except Error Unit) : (c.beginReturn id result).2.books.Reckoning := by
  cases ha : c.answers.get? id with
  | none =>
      rw [c.beginReturn_of_none result ha]
      exact hb
  | some a =>
      have horder := hb.answers id a ha
      obtain ⟨begun, c', a', heq, h⟩ :=
        c.beginReturn_begun hb.exports ha (fun e he => (horder.unbegun e he).1) result
      rw [heq]
      have hready : a'.state.resultsReady = true := by rw [h.state]; rfl
      have hlt : ∀ r, a'.results = some r → r.arena < c'.messages.next := by
        intro r hr
        rcases h.results r hr with hold | ⟨e, he, hr'⟩
        · exact Nat.lt_of_lt_of_le (horder.results_lt r hold) h.messages.next
        · rw [hr']
          exact Nat.lt_of_lt_of_le (horder.unbegun e he).2.1 h.messages.next
      have hnone : ∀ e, a'.message ≠ some e := fun e he => by simp [h.message] at he
      rcases h.exports with ⟨hsame, hkept, -, hresults⟩ | ⟨hmsg, hadded, -, hnamed⟩
      · -- nothing was handed out
        refine hb.replace (d := c'.books) ha h.link hsame h.messages (Or.inl h.answers) hkept
          ⟨fun e he => absurd he (hnone e), hlt, fun _ => hready, fun hup hne => ?_⟩
        have hmsg : a.message = none := horder.message_eq_none (horder.ready (hkept ▸ hne))
        obtain ⟨r, hr, hmatch⟩ := (horder.mono (d := c'.books) (fun hl => h.link.symm.trans hl) h.messages
          (fun _ _ _ _ hn => by rw [books, hsame]; exact hn)).named hup (hkept ▸ hne)
        exact ⟨r, (hresults hmsg).trans hr, hkept ▸ hmatch⟩
      · -- what was counted up is what the answer notes now, and it noted nothing before
        have hempty : a.exports = [] := horder.exports_eq_nil hmsg
        refine ⟨hadded.wf, h.messages.filled hb.filled, fun j d hd => ?_, fun hup e => ?_⟩
        · have hd' : (c.answers.insert id a').get? j = some d := h.answers ▸ hd
          rw [Table.get?_insert] at hd'
          split at hd'
          · obtain rfl := Option.some.inj hd'
            exact ⟨fun e he => absurd he (hnone e), hlt, fun _ => hready, fun _ _ => hnamed hb.filled⟩
          · exact (hb.answers j d hd').mono (fun hl => h.link.symm.trans hl) h.messages
              fun _ e _ cap hn => hadded.kept.names hn
        · have hsum := noted_insert (b := c.books) (d := c'.books) h.answers e
          have hget : c.books.answers.get? id = some a := ha
          have hcovers := hb.covers (h.link.symm.trans hup) e
          have hrefs : c'.books.exports.refs e = c.books.exports.refs e + a'.exports.count e :=
            hadded.refs e
          rw [hget, Option.map_some, Option.getD_some, hempty, List.count_nil] at hsum
          show c'.books.noted e ≤ c'.books.exports.refs e
          omega

theorem answers_putAnswer (c : Connection) (id : AnswerId) (a : Answer) :
    (c.putAnswer id a).answers = c.answers.insert id a ∨
      (c.putAnswer id a).answers = c.answers.erase id := by
  unfold putAnswer
  dsimp only
  split
  · exact Or.inr rfl
  · exact Or.inl rfl

theorem reckoning_endReturn {c : Connection} (hb : c.books.Reckoning) (id : AnswerId) :
    (c.endReturn id).books.Reckoning := by
  cases ha : c.answers.get? id with
  | none => rwa [c.endReturn_of_none ha]
  | some a =>
      obtain ⟨hs, heq⟩ := c.endReturn_shape ha
      rw [heq]
      exact hb.rewrite ha rfl rfl rfl (answers_putAnswer _ id _) rfl rfl (fun h => h)
        (Or.inr ⟨rfl, rfl⟩)

theorem reckoning_cancelReturn {c : Connection} (hb : c.books.Reckoning) (id : AnswerId) :
    (c.cancelReturn id).books.Reckoning := by
  cases ha : c.answers.get? id with
  | none => rwa [c.cancelReturn_of_none ha]
  | some a =>
      obtain ⟨hs, heq⟩ := c.cancelReturn_shape ha
      rw [heq]
      exact hb.rewrite ha rfl rfl rfl (answers_putAnswer _ id _) rfl rfl (fun _ => rfl)
        (Or.inl rfl)

theorem reckoning_newAnswer {c : Connection} (hb : c.books.Reckoning) (id : AnswerId)
    (token : Token) : (c.newAnswer id token).2.books.Reckoning := by
  cases ha : c.answers.get? id with
  | some a =>
      rw [c.newAnswer_of_live token ha]
      exact hb
  | none =>
      obtain ⟨hext, hopen⟩ := c.reserveReturn_spec id
      obtain ⟨admission, ms, hs, heq, hms, -⟩ := c.newAnswer_shape token ha
      rw [heq]
      subst hms
      refine ⟨hb.exports, hext.filled hb.filled, fun j d hd => ?_, fun hup e => ?_⟩
      · have hd' : (c.answers.insert id _).get? j = some d := hd
        rw [Table.get?_insert] at hd'
        split at hd'
        · obtain rfl := Option.some.inj hd'
          refine ⟨fun e he => ?_, by simp, by simp, by simp⟩
          obtain ⟨hhosted, hlt⟩ := hopen e (eq_ok_of_toOption he)
          exact ⟨hhosted, hlt, rfl, rfl⟩
        · exact (hb.answers j d hd').mono (fun h => h) hext fun _ _ _ _ h => h
      · have hget : c.answers.get? id = none := ha
        have hsum := c.answers.total_insert (fun a => a.exports.count e) id
          ⟨c.nextCall, token, {}, (c.reserveReturn id).1.toOption, none, none, none, []⟩
        rw [hget] at hsum
        exact Nat.le_trans (Nat.le_of_eq hsum) (hb.covers hup e)

theorem reckoning_beginDisconnect {c : Connection} (hb : c.books.Reckoning) (e : Error) :
    (c.beginDisconnect e).2.books.Reckoning := by
  have hext := c.extends_beginDisconnect e
  rcases c.beginDisconnect_shape e with ⟨heq, -⟩ | ⟨-, ms, hs, p, heq, -⟩
  · rw [heq]
    exact hb
  · rw [heq] at hext ⊢
    refine ⟨Exports.wf_drain _, hext.filled hb.filled, fun id a ha => ?_,
      fun hup => absurd hup (by simp [books, breakLink])⟩
    have hget : (c.answers.mapValues fun a => { a with caller := none }).get? id = some a := ha
    rw [Table.get?_mapValues] at hget
    obtain ⟨a₀, ha₀, rfl⟩ := Option.map_eq_some_iff.1 hget
    have horder := hb.answers id a₀ ha₀
    exact ⟨fun e he => ⟨(horder.unbegun e he).1,
        Nat.lt_of_lt_of_le (horder.unbegun e he).2.1 hext.next, (horder.unbegun e he).2.2⟩,
      fun r hr => Nat.lt_of_lt_of_le (horder.results_lt r hr) hext.next, horder.ready,
      fun hup => absurd hup (by simp [books, breakLink])⟩

/-! ### The peer's finish -/

theorem count_givenBack (a : Answer) (releaseCaps : Bool) (e : ExportId) :
    (a.givenBack releaseCaps).count e + (a.markFinishReceived releaseCaps).exports.count e =
      a.exports.count e := by
  cases releaseCaps <;> simp [Answer.givenBack, Answer.markFinishReceived]

/-- The peer gives back only references that it was handed. -/
theorem count_givenBack_le {c : Connection} (hb : c.books.Reckoning) (hup : c.link = .up)
    {id : AnswerId} {a : Answer} (ha : c.answers.get? id = some a) (releaseCaps : Bool)
    (e : ExportId) : (a.givenBack releaseCaps).count e ≤ c.exports.refs e := by
  have hpart := count_givenBack a releaseCaps e
  have hall : a.exports.count e ≤ c.books.noted e :=
    c.answers.le_total (fun a => a.exports.count e) ha
  have hcovers : c.books.noted e ≤ c.exports.refs e := hb.covers hup e
  omega

/-- What another answer notes is still counted when an answer gives back what it notes itself. -/
theorem inOrder_of_removed {b d : Books} (hb : b.Reckoning) {id j : AnswerId} {a x : Answer}
    (ha : b.answers.get? id = some a) (hx : b.answers.get? j = some x) (hj : j ≠ id)
    (hlink : d.link = .up → b.link = .up) (hm : b.messages.Extends d.messages)
    (hremoved : d.link = .up → b.exports.Removed a.exports d.exports) : d.InOrder x := by
  refine (hb.answers j x hx).mono hlink hm fun hup e he cap hn => (hremoved hup).names ?_ hn
  have hboth := count_add_count_le ha hx hj e
  have hcovers := hb.covers (hlink hup) e
  have hcount : 0 < x.exports.count e := List.count_pos_iff.2 he
  rw [(hremoved hup).refs e]
  exact Nat.sub_pos_of_lt (Nat.lt_of_lt_of_le (by omega) hcovers)

/-- An answer that has given back all that it noted. -/
theorem inOrder_markFinishReceived {b d : Books} {a : Answer} (h : b.InOrder a)
    (hm : d.messages = b.messages) : d.InOrder (a.markFinishReceived true) where
  unbegun e he := by
    obtain ⟨hhosted, hlt, -, hready⟩ := h.unbegun e he
    rw [hm]
    exact ⟨hhosted, hlt, rfl, hready⟩
  results_lt r hr := by
    rw [hm]
    exact h.results_lt r hr
  ready hne := absurd rfl hne
  named _ hne := absurd rfl hne

/-- Giving back all that an answer notes keeps the reckoning. -/
theorem reckoning_release {b d : Books} (hb : b.Reckoning) {id : AnswerId} {a : Answer}
    (ha : b.answers.get? id = some a) (hlink : d.link = .up → b.link = .up)
    (hmessages : d.messages = b.messages)
    (hremoved : d.link = .up → b.exports.Removed a.exports d.exports) (hwf : d.exports.WF)
    (hanswers : d.answers = b.answers.insert id (a.markFinishReceived true) ∨
      d.answers = b.answers.erase id) : d.Reckoning := by
  have hm : b.messages.Extends d.messages := by
    rw [hmessages]
    exact .refl _
  refine ⟨hwf, hm.filled hb.filled, fun j x hx => ?_, fun hup e => ?_⟩
  · by_cases hj : j = id
    · have hrecord : x = a.markFinishReceived true := by
        rcases hanswers with h | h
        · rw [hj, h, Table.get?_insert_self] at hx
          exact (Option.some.inj hx).symm
        · rw [hj, h, Table.get?_erase_self] at hx
          exact absurd hx (by simp)
      rw [hrecord]
      exact inOrder_markFinishReceived (hb.answers id a ha) hmessages
    · refine inOrder_of_removed hb ha ?_ hj hlink hm hremoved
      rcases hanswers with h | h
      · rwa [h, Table.get?_insert_of_ne _ hj] at hx
      · rwa [h, Table.get?_erase_of_ne _ hj] at hx
  · have hcovers := hb.covers (hlink hup) e
    rw [(hremoved hup).refs e]
    refine Nat.le_sub_of_add_le (Nat.le_trans (Nat.le_of_eq ?_) hcovers)
    rcases hanswers with h | h
    · have hsum := noted_insert h e
      rw [ha] at hsum
      exact hsum
    · have hsum := noted_erase h e
      rw [ha] at hsum
      exact hsum

theorem reckoning_finish {c : Connection} (hb : c.books.Reckoning) (id : AnswerId)
    (releaseCaps : Bool) : (c.finish id releaseCaps).books.Reckoning := by
  cases ha : c.answers.get? id with
  | none =>
      rw [c.finish_of_none releaseCaps ha]
      exact hb
  | some a =>
      obtain ⟨hs, ts, heq⟩ := c.finish_shape releaseCaps ha
      rw [heq]
      cases releaseCaps with
      | false =>
          exact hb.rewrite ha rfl rfl rfl (answers_putAnswer _ id _) rfl rfl (fun h => h)
            (Or.inr ⟨rfl, rfl⟩)
      | true =>
          have hle := fun hup => count_givenBack_le hb hup ha true
          exact reckoning_release hb ha (fun hup => hup) rfl
            (fun hup => (Exports.release_spec hb.exports (hle hup)).1)
            (Exports.wf_release hb.exports _) (answers_putAnswer _ id _)

/-! ## All connections -/

theorem reckoning_rule : FullRule fun c c' => c.books.Reckoning → c'.books.Reckoning where
  trans h h' hb := h' (h hb)
  quiet h hb := by rw [h]; exact hb
  ends c id hb := reckoning_endReturn hb id
  admits c id token hb := reckoning_newAnswer hb id token
  breaks c e hb := reckoning_beginDisconnect hb e
  works {c c'} _ h hb := by
    have hlink : c'.link = c.link := congrArg Books.link h
    have hanswers : c'.answers = c.answers := congrArg Books.answers h
    have hexports : c'.exports = c.exports := congrArg Books.exports h
    have hmessages : c'.messages = c.messages := congrArg Books.messages h
    refine reckoning_of_eq hb hlink hanswers hexports ?_
    show c.messages.Extends c'.messages
    rw [hmessages]
    exact .refl _
  cancels c id hb := reckoning_cancelReturn hb id
  allocates c id size hb := by
    unfold allocateResults
    split
    · exact hb
    · next a ha =>
        split
        · exact hb
        · next e hopen =>
            have hwork := Message.worked_rule.allocateResults (c.messages.message e) size
            split <;> next heq => rw [heq] at hwork; exact reckoning_putReturn hb ha hopen hwork
  boots c id cap hb := by
    unfold setBootstrap
    split
    · exact hb
    · next a ha =>
        split
        · exact hb
        · next e hopen =>
            have hwork := Message.worked_rule.setBootstrap (c.messages.message e) cap
            split <;> next heq => rw [heq] at hwork; exact reckoning_putReturn hb ha hopen hwork
  routes c id name hb := by
    rcases c.setPipeline_shape id name with h | ⟨a, ha, -, h⟩
    · rw [h]
      exact hb
    · rw [h]
      exact hb.rewrite ha rfl rfl rfl (Or.inl rfl) rfl rfl (fun h => h) (Or.inr ⟨rfl, rfl⟩)
  edits c ref change hb := reckoning_of_eq hb rfl rfl rfl (c.messages.extends_edit ref change)
  begins c id result hb := reckoning_beginReturn hb id result
  finishes c id releaseCaps hb := reckoning_finish hb id releaseCaps

theorem Reachable.reckoning {c : Connection} (hc : Reachable c) : c.books.Reckoning := by
  refine reckoning_rule.reachable (fun options => ?_) hc
  refine ⟨Exports.wf_empty, fun id => ⟨[], rfl⟩, fun id a h => ?_, fun _ e => Nat.zero_le _⟩
  exact absurd h (by simp [books, Connection.initial])

end Connection

end Callee
