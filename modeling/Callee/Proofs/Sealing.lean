import Callee.Proofs.Pointers
import Callee.Proofs.References

set_option autoImplicit false

/-! # Whose storage is whose

The arena of a return belongs to the record that the return was reserved for. While the record holds the
return nobody else does; when the call completes the record parts with it, and keeps at most the right to
read its results there (`Books.Stored`). From then on the arena is sealed: no operation of the connection
writes to it any more (`sealed_step`). Handles to its structs still do, and nothing stops them. -/

namespace Callee

theorem Envelope.results?_eq (e : Envelope) :
    e.results? = (e.root.bind Root.content?).map (ResultsRef.mk e.arena) := by
  obtain ⟨arena, root⟩ := e
  rcases root with _ | ⟨id, release, outcome⟩ | exc
  · rfl
  · cases outcome <;> rfl
  · rfl

/-! ## Records and arenas -/

namespace Books

/-- Whose storage is whose. -/
structure Stored (b : Books) : Prop where
  sound : ∀ r, (b.messages.arena r).Sound
  /-- A return that a record holds has its arena, and its content leads somewhere. -/
  opened : ∀ {id a e}, b.answers.get? id = some a → a.message = some e →
    e.arena < b.messages.next ∧ (b.messages.message e).HasContent
  /-- So does what results are read from. -/
  results : ∀ {id a r}, b.answers.get? id = some a → a.results = some r →
    r.arena < b.messages.next ∧ (b.messages.arena r.arena).Has r.content
  /-- No two records hold returns in one arena. -/
  apart : ∀ {id id' a a' e e'}, b.answers.get? id = some a → b.answers.get? id' = some a' →
    a.message = some e → a'.message = some e' → e'.arena = e.arena → id' = id
  /-- No record holds a return in the arena that results are read from. -/
  retained : ∀ {id id' a a' r e}, b.answers.get? id = some a → b.answers.get? id' = some a' →
    a.results = some r → a'.message = some e → e.arena ≠ r.arena

theorem hasContent_mono {s s' : MessageStore} (hm : s.Grows s') {e : Envelope} (hlt : e.arena < s.next)
    (h : (s.message e).HasContent) : (s'.message e).HasContent :=
  fun p hp => (hm.arena e.arena hlt).has (h p hp)

namespace Stored

variable {b d : Books}

/-- Messages grow, and records keep what they hold and read. -/
theorem of_same (hb : b.Stored) (hm : b.messages.Grows d.messages)
    (hrecords : ∀ {id x}, d.answers.get? id = some x →
      ∃ a, b.answers.get? id = some a ∧ x.message = a.message ∧ x.results = a.results) : d.Stored where
  sound := hm.sound hb.sound
  opened hx he := by
    obtain ⟨a, ha, hmessage, -⟩ := hrecords hx
    obtain ⟨hlt, hcontent⟩ := hb.opened ha (hmessage ▸ he)
    exact ⟨Nat.lt_of_lt_of_le hlt hm.next, hasContent_mono hm hlt hcontent⟩
  results hx hr := by
    obtain ⟨a, ha, -, hresults⟩ := hrecords hx
    obtain ⟨hlt, hhas⟩ := hb.results ha (hresults ▸ hr)
    exact ⟨Nat.lt_of_lt_of_le hlt hm.next, (hm.arena _ hlt).has hhas⟩
  apart hx hx' he he' := by
    obtain ⟨a, ha, hmessage, -⟩ := hrecords hx
    obtain ⟨a', ha', hmessage', -⟩ := hrecords hx'
    exact hb.apart ha ha' (hmessage ▸ he) (hmessage' ▸ he')
  retained hx hx' hr he := by
    obtain ⟨a, ha, -, hresults⟩ := hrecords hx
    obtain ⟨a', ha', hmessage', -⟩ := hrecords hx'
    exact hb.retained ha ha' (hresults ▸ hr) (hmessage' ▸ he)

theorem of_eq (hb : b.Stored) (hm : b.messages.Grows d.messages) (h : d.answers = b.answers) : d.Stored :=
  hb.of_same hm fun hx => ⟨_, h ▸ hx, rfl, rfl⟩

/-- One record is replaced by another, or leaves the table. What the other holds is in the arena of the
    return that the record held, and what it reads results from is so, or was read before. -/
theorem replace (hb : b.Stored) {id : AnswerId} {a a' : Answer} (ha : b.answers.get? id = some a)
    (hanswers : d.answers = b.answers.insert id a' ∨ d.answers = b.answers.erase id)
    (hm : b.messages.Grows d.messages)
    (hmessage : ∀ {e'}, a'.message = some e' → (d.messages.message e').HasContent ∧
      ∃ e, a.message = some e ∧ e'.arena = e.arena)
    (hresults : ∀ {r}, a'.results = some r → a.results = some r ∨
      a'.message = none ∧ (d.messages.arena r.arena).Has r.content ∧
        ∃ e, a.message = some e ∧ r.arena = e.arena) : d.Stored where
  sound := hm.sound hb.sound
  opened {j x e} hx he := by
    rcases Table.get?_of_replaced hanswers hx with ⟨-, rfl⟩ | ⟨-, hx⟩
    · obtain ⟨hcontent, e₀, he₀, harena⟩ := hmessage he
      exact ⟨harena ▸ Nat.lt_of_lt_of_le (hb.opened ha he₀).1 hm.next, hcontent⟩
    · obtain ⟨hlt, hcontent⟩ := hb.opened hx he
      exact ⟨Nat.lt_of_lt_of_le hlt hm.next, hasContent_mono hm hlt hcontent⟩
  results {j x r} hx hr := by
    have hold : ∀ {i y}, b.answers.get? i = some y → y.results = some r →
        r.arena < d.messages.next ∧ (d.messages.arena r.arena).Has r.content := by
      intro i y hy hr
      obtain ⟨hlt, hhas⟩ := hb.results hy hr
      exact ⟨Nat.lt_of_lt_of_le hlt hm.next, (hm.arena _ hlt).has hhas⟩
    rcases Table.get?_of_replaced hanswers hx with ⟨-, rfl⟩ | ⟨-, hx⟩
    · rcases hresults hr with hr | ⟨-, hhas, e, he, harena⟩
      · exact hold ha hr
      · exact ⟨harena ▸ Nat.lt_of_lt_of_le (hb.opened ha he).1 hm.next, hhas⟩
    · exact hold hx hr
  apart {j j' x x' e e'} hx hx' he he' hsame := by
    rcases Table.get?_of_replaced hanswers hx with ⟨rfl, rfl⟩ | ⟨hj, hx⟩ <;>
      rcases Table.get?_of_replaced hanswers hx' with ⟨rfl, rfl⟩ | ⟨hj', hx'⟩
    · rfl
    · obtain ⟨-, e₀, he₀, harena⟩ := hmessage he
      exact hb.apart ha hx' he₀ he' (hsame.trans harena)
    · obtain ⟨-, e₀, he₀, harena⟩ := hmessage he'
      exact hb.apart hx ha he he₀ (harena.symm.trans hsame)
    · exact hb.apart hx hx' he he' hsame
  retained {j j' x x' r e} hx hx' hr he hsame := by
    rcases Table.get?_of_replaced hanswers hx with ⟨rfl, rfl⟩ | ⟨hj, hx⟩ <;>
      rcases Table.get?_of_replaced hanswers hx' with ⟨rfl, rfl⟩ | ⟨hj', hx'⟩
    · obtain ⟨-, e₀, he₀, harena⟩ := hmessage he
      rcases hresults hr with hr | ⟨hnone, -⟩
      · exact hb.retained ha ha hr he₀ (harena.symm.trans hsame)
      · exact absurd (hnone.symm.trans he) (by simp)
    · rcases hresults hr with hr | ⟨-, -, e₀, he₀, harena⟩
      · exact hb.retained ha hx' hr he hsame
      · exact hj' (hb.apart ha hx' he₀ he (hsame.trans harena))
    · obtain ⟨-, e₀, he₀, harena⟩ := hmessage he
      exact hb.retained hx ha hr he₀ (harena.symm.trans hsame)
    · exact hb.retained hx hx' hr he hsame

/-- A record keeps what it holds and reads, or parts with it. -/
theorem rewrite (hb : b.Stored) {id : AnswerId} {a a' : Answer} (ha : b.answers.get? id = some a)
    (hanswers : d.answers = b.answers.insert id a' ∨ d.answers = b.answers.erase id)
    (hm : d.messages = b.messages) (hmessage : a'.message = a.message ∨ a'.message = none)
    (hresults : a'.results = a.results) : d.Stored := by
  refine hb.replace ha hanswers (hm ▸ .refl _) (fun {e'} he' => ?_) fun hr => Or.inl (hresults ▸ hr)
  rcases hmessage with hsame | hnone
  · exact ⟨hm ▸ (hb.opened ha (hsame ▸ he')).2, e', hsame ▸ he', rfl⟩
  · exact absurd (hnone.symm.trans he') (by simp)

/-- A record is added, with a return in a new arena if it has one. -/
theorem enter (hb : b.Stored) {id : AnswerId} {a' : Answer} (hfresh : b.answers.get? id = none)
    (hanswers : d.answers = b.answers.insert id a') (hm : b.messages.Grows d.messages)
    (hmessage : ∀ {e}, a'.message = some e → b.messages.next ≤ e.arena ∧ e.arena < d.messages.next ∧
      (d.messages.message e).HasContent) (hresults : a'.results = none) : d.Stored where
  sound := hm.sound hb.sound
  opened {j x e} hx he := by
    rcases Table.get?_of_replaced (Or.inl hanswers) hx with ⟨-, rfl⟩ | ⟨-, hx⟩
    · exact (hmessage he).2
    · obtain ⟨hlt, hcontent⟩ := hb.opened hx he
      exact ⟨Nat.lt_of_lt_of_le hlt hm.next, hasContent_mono hm hlt hcontent⟩
  results {j x r} hx hr := by
    rcases Table.get?_of_replaced (Or.inl hanswers) hx with ⟨-, rfl⟩ | ⟨-, hx⟩
    · exact absurd (hresults.symm.trans hr) (by simp)
    · obtain ⟨hlt, hhas⟩ := hb.results hx hr
      exact ⟨Nat.lt_of_lt_of_le hlt hm.next, (hm.arena _ hlt).has hhas⟩
  apart {j j' x x' e e'} hx hx' he he' hsame := by
    rcases Table.get?_of_replaced (Or.inl hanswers) hx with ⟨rfl, rfl⟩ | ⟨hj, hx⟩ <;>
      rcases Table.get?_of_replaced (Or.inl hanswers) hx' with ⟨rfl, rfl⟩ | ⟨hj', hx'⟩
    · rfl
    · exact absurd (hsame ▸ (hb.opened hx' he').1) (Nat.not_lt_of_le (hmessage he).1)
    · exact absurd (hsame.symm ▸ (hb.opened hx he).1) (Nat.not_lt_of_le (hmessage he').1)
    · exact hb.apart hx hx' he he' hsame
  retained {j j' x x' r e} hx hx' hr he hsame := by
    rcases Table.get?_of_replaced (Or.inl hanswers) hx with ⟨rfl, rfl⟩ | ⟨hj, hx⟩
    · exact absurd (hresults.symm.trans hr) (by simp)
    · rcases Table.get?_of_replaced (Or.inl hanswers) hx' with ⟨rfl, rfl⟩ | ⟨hj', hx'⟩
      · exact absurd (hsame.symm ▸ (hb.results hx hr).1) (Nat.not_lt_of_le (hmessage he).1)
      · exact hb.retained hx hx' hr he hsame

end Stored

end Books

namespace MessageStore

/-- Nothing that was there is touched; what is new stands in new arenas. -/
structure Adds (s s' : MessageStore) : Prop extends s.Grows s' where
  same : ∀ r, r < s.next → s'.arena r = s.arena r

theorem Adds.refl (s : MessageStore) : s.Adds s := ⟨.refl s, fun _ _ => rfl⟩

theorem adds_create (s : MessageStore) (wordLimit : Option Nat) : s.Adds (s.create wordLimit).2 :=
  ⟨s.grows_create wordLimit, fun r hr => by rw [arena_create, if_neg (Nat.ne_of_lt hr)]⟩

/-- Work on a message in a new arena. -/
theorem Adds.put {s s' : MessageStore} (h : s.Adds s') {e : Envelope} {m : Message}
    (hnew : s.next ≤ e.arena) (hm : (s'.message e).Builds m) : s.Adds (s'.put e m).2 := by
  refine ⟨h.toGrows.trans (grows_put hm), fun r hr => ?_⟩
  exact (arena_putArena_of_ne s' (Nat.ne_of_lt (Nat.lt_of_lt_of_le hr hnew)) _).trans (h.same r hr)

end MessageStore

namespace Connection

/-! ## Reserving -/

theorem adds_reserve (c : Connection) : c.messages.Adds c.reserve.2.messages ∧
    ∀ e, c.reserve.1 = .ok e → e = { arena := c.messages.next } ∧ e.arena < c.reserve.2.messages.next := by
  unfold reserve
  dsimp only
  split
  · exact ⟨.refl _, by simp⟩
  · refine ⟨c.messages.adds_create _, fun e he => ?_⟩
    obtain rfl := Except.ok.inj he
    exact ⟨rfl, Nat.lt_succ_self _⟩

/-- A reserved return stands in a new arena. -/
theorem adds_reserveReturn (c : Connection) (id : AnswerId) :
    c.messages.Adds (c.reserveReturn id).2.messages ∧ ∀ e, (c.reserveReturn id).1 = .ok e →
      c.messages.next ≤ e.arena ∧ e.arena < (c.reserveReturn id).2.messages.next ∧
        ((c.reserveReturn id).2.messages.message e).HasContent := by
  unfold reserveReturn
  split
  · exact ⟨.refl _, by simp⟩
  · obtain ⟨hadds, hnew⟩ := c.adds_reserve
    split
    · next heq =>
        rw [heq] at hadds
        exact ⟨hadds, by simp⟩
    · next e c₁ heq =>
        rw [heq] at hadds hnew
        obtain ⟨rfl, hlt⟩ := hnew e rfl
        dsimp only
        split
        · exact ⟨hadds, by simp⟩
        · next m hstart =>
            have hbuilds := Message.builds_startReturn hstart
            refine ⟨hadds.put (Nat.le_refl _) hbuilds, fun e' he' => ?_⟩
            obtain rfl := Except.ok.inj he'
            refine ⟨Nat.le_refl _, hlt, ?_⟩
            rw [MessageStore.message_put]
            -- a return that nothing was written into has no content
            exact hbuilds.content fun p hp => absurd hp (by simp [MessageStore.message])

theorem adds_reserveAbort (c : Connection) (e : Error) :
    c.messages.Adds (c.reserveAbort e).2.messages := by
  obtain ⟨hadds, hnew⟩ := c.adds_reserve
  unfold reserveAbort
  split
  · next heq =>
      rw [heq] at hadds
      exact hadds
  · next envelope c₁ heq =>
      rw [heq] at hadds hnew
      obtain ⟨rfl, -⟩ := hnew envelope rfl
      dsimp only
      split
      · exact hadds
      · next m hwrite => exact hadds.put (Nat.le_refl _) (Message.builds_writeAbort hwrite)

theorem adds_beginDisconnect (c : Connection) (e : Error) :
    c.messages.Adds (c.beginDisconnect e).2.messages := by
  unfold beginDisconnect
  split
  · exact .refl _
  · exact (c.breakLink e).adds_reserveAbort e

/-! ## The invariant -/

/-- Work on a return that a record holds. -/
theorem stored_putReturn {c : Connection} (hc : c.books.Stored) {id : AnswerId} {a : Answer}
    {e : Envelope} {m : Message} (ha : c.answers.get? id = some a) (hopen : a.openReturn id = .ok e)
    (hm : (c.messages.message e).Builds m) : (c.putReturn id a e m).books.Stored := by
  have hmsg : a.message = some e := ((a.openReturn_eq_ok_iff id e).1 hopen).2
  refine hc.replace ha (Or.inl rfl) (MessageStore.grows_put hm) (fun {e'} he' => ?_) fun hr => Or.inl hr
  obtain rfl := Option.some.inj he'
  refine ⟨?_, e, hmsg, rfl⟩
  show ((c.messages.put e m).2.message (c.messages.put e m).1).HasContent
  rw [MessageStore.message_put]
  exact hm.content (hc.opened ha hmsg).2

theorem stored_allocateResults {c : Connection} (hc : c.books.Stored) (id : AnswerId)
    (size : ObjectSize) : (c.allocateResults id size).2.books.Stored := by
  unfold allocateResults
  split
  · exact hc
  · next a ha =>
      split
      · exact hc
      · next e hopen =>
          have hbuilds := Message.builds_rule.allocateResults (c.messages.message e) size
          split <;> next heq => rw [heq] at hbuilds; exact stored_putReturn hc ha hopen hbuilds

theorem stored_setBootstrap {c : Connection} (hc : c.books.Stored) (id : AnswerId) (cap : Capability) :
    (c.setBootstrap id cap).2.books.Stored := by
  unfold setBootstrap
  split
  · exact hc
  · next a ha =>
      split
      · exact hc
      · next e hopen =>
          have hbuilds := Message.builds_rule.setBootstrap (c.messages.message e) cap
          split <;> next heq => rw [heq] at hbuilds; exact stored_putReturn hc ha hopen hbuilds

/-- A record parts with its return when the call completes, and what it keeps is the content of the
    results in it. -/
theorem stored_beginReturn {c : Connection} (hc : c.books.Stored) (id : AnswerId)
    (result : Except Error Unit) : (c.beginReturn id result).2.books.Stored := by
  unfold beginReturn
  split
  · exact hc
  · next a ha =>
      dsimp only
      split
      · exact hc.rewrite ha (Or.inl rfl) rfl (Or.inr rfl) rfl
      · next e hmsg =>
          have hbuilds := Message.builds_rule.writeResults c.exports (c.messages.message e) c.isDown
          have hhas := hbuilds.content (hc.opened ha hmsg).2
          simp only [returnResults, reportAll_shape]
          refine hc.replace ha (Or.inl rfl) (MessageStore.grows_put hbuilds)
            (fun he => absurd he (by simp [Answer.complete])) fun {r} hr => Or.inr ?_
          obtain ⟨p, hp, rfl⟩ := Option.map_eq_some_iff.1 ((Envelope.results?_eq _).symm.trans hr)
          refine ⟨rfl, ?_, e, hmsg, rfl⟩
          show Arena.Has (MessageStore.arena (c.messages.put e _).2 e.arena) p
          rw [MessageStore.put, MessageStore.arena_putArena_self]
          exact hhas p hp
      · next e x hmsg =>
          have hbuilds := Message.builds_rule.writeException (c.messages.message e) x
          have hput : ∀ {d : Connection}, d.answers = c.answers.insert id (a.complete (some x)) →
              d.messages = (c.messages.put e ((c.messages.message e).writeException x).2).2 →
                d.books.Stored := by
            intro d hanswers hmessages
            have hgrows : c.messages.Grows d.messages := hmessages ▸ MessageStore.grows_put hbuilds
            exact hc.replace ha (Or.inl hanswers) hgrows
              (fun he => absurd he (by simp [Answer.complete])) fun hr => Or.inl hr
          unfold returnError
          dsimp only
          split <;> exact hput rfl rfl

theorem stored_rule : FullRule fun c c' => c.books.Stored → c'.books.Stored where
  trans h h' hc := h' (h hc)
  quiet h hc := h ▸ hc
  begins _ id result hc := stored_beginReturn hc id result
  ends c id hc := by
    cases ha : c.answers.get? id with
    | none => rwa [c.endReturn_of_none ha]
    | some a =>
        obtain ⟨hs, heq⟩ := c.endReturn_shape ha
        rw [heq]
        exact hc.rewrite ha (answers_putAnswer _ id _) rfl (Or.inl rfl) rfl
  admits c id token hc := by
    cases ha : c.answers.get? id with
    | some a => rwa [c.newAnswer_of_live token ha]
    | none =>
        obtain ⟨admission, ms, hs, heq, rfl, -⟩ := c.newAnswer_shape token ha
        obtain ⟨hadds, hnew⟩ := c.adds_reserveReturn id
        rw [heq]
        exact hc.enter ha rfl hadds.toGrows (fun {e} he => hnew e (eq_ok_of_toOption he)) rfl
  breaks c e hc := by
    have hgrows := (c.adds_beginDisconnect e).toGrows
    rcases c.beginDisconnect_shape e with ⟨heq, -⟩ | ⟨-, ms, hs, p, heq, -⟩
    · rwa [heq]
    · rw [heq] at hgrows ⊢
      refine hc.of_same hgrows fun {id b} hb => ?_
      have hget : (c.answers.mapValues fun a => { a with caller := none }).get? id = some b := hb
      rw [Table.get?_mapValues] at hget
      obtain ⟨a, ha, rfl⟩ := Option.map_eq_some_iff.1 hget
      exact ⟨a, ha, rfl, rfl⟩
  works {c c'} _ h hc := by
    have hanswers : c'.answers = c.answers := congrArg Books.answers h
    have hmessages : c'.messages = c.messages := congrArg Books.messages h
    have hgrows : c.messages.Grows c'.messages := hmessages ▸ .refl _
    exact hc.of_eq hgrows hanswers
  cancels c id hc := by
    cases ha : c.answers.get? id with
    | none => rwa [c.cancelReturn_of_none ha]
    | some a =>
        obtain ⟨hs, heq⟩ := c.cancelReturn_shape ha
        rw [heq]
        exact hc.rewrite ha (answers_putAnswer _ id _) rfl (Or.inr rfl) rfl
  allocates _ id size hc := stored_allocateResults hc id size
  boots _ id cap hc := stored_setBootstrap hc id cap
  routes c id name hc := by
    rcases c.setPipeline_shape id name with heq | ⟨a, ha, -, heq⟩
    · rwa [heq]
    · rw [heq]
      exact hc.rewrite ha (Or.inl rfl) rfl (Or.inl rfl) rfl
  edits c ref change hc := hc.of_eq (c.messages.grows_edit ref change) rfl
  finishes c id releaseCaps hc := by
    cases ha : c.answers.get? id with
    | none => rwa [c.finish_of_none releaseCaps ha]
    | some a =>
        obtain ⟨hs, ts, heq⟩ := c.finish_shape releaseCaps ha
        rw [heq]
        exact hc.rewrite ha (answers_putAnswer _ id _) rfl (Or.inl rfl) rfl

theorem Reachable.stored {c : Connection} (hc : Reachable c) : c.books.Stored := by
  refine stored_rule.reachable (fun options => ?_) hc
  have hnone : ∀ {id a}, (Connection.initial options).books.answers.get? id ≠ some a := by
    simp [Connection.initial, books]
  exact
    { sound := fun _ => Arena.sound_empty none
      opened := fun h => absurd h hnone
      results := fun h => absurd h hnone
      apart := fun h => absurd h hnone
      retained := fun h => absurd h hnone }

/-! ## Sealed arenas -/

/-- An arena that was given out, and that no record holds a return in. -/
structure Sealed (c : Connection) (r : ArenaId) : Prop where
  lt : r < c.messages.next
  parted : ∀ {id a e}, c.answers.get? id = some a → a.message = some e → e.arena ≠ r

/-- A sealed arena stays sealed and as it is. -/
def Spares (r : ArenaId) (c c' : Connection) : Prop :=
  c.Sealed r → c'.Sealed r ∧ c'.messages.arena r = c.messages.arena r

namespace Spares

variable {r : ArenaId} {c c' : Connection}

/-- Every return that a record holds is in an arena where a record held one, or in a new one. -/
theorem of_records (hnext : c.messages.next ≤ c'.messages.next)
    (harena : c.Sealed r → c'.messages.arena r = c.messages.arena r)
    (hrecords : ∀ {id x e'}, c'.answers.get? id = some x → x.message = some e' →
      c.messages.next ≤ e'.arena ∨ ∃ id a e, c.answers.get? id = some a ∧ a.message = some e ∧
        e'.arena = e.arena) : Spares r c c' := by
  refine fun hsealed => ⟨⟨Nat.lt_of_lt_of_le hsealed.lt hnext, fun hx he' hsame => ?_⟩, harena hsealed⟩
  rcases hrecords hx he' with hnew | ⟨id, a, e, ha, he, heq⟩
  · exact absurd (hsame ▸ hsealed.lt) (Nat.not_lt_of_le hnew)
  · exact hsealed.parted ha he (heq.symm.trans hsame)

theorem of_eq (hanswers : c'.answers = c.answers) (hm : c.messages.Adds c'.messages) : Spares r c c' :=
  of_records hm.next (fun hsealed => hm.same r hsealed.lt) fun {id x e'} hx he' =>
    Or.inr ⟨id, x, e', hanswers ▸ hx, he', rfl⟩

/-- One record is replaced, or leaves the table. -/
theorem of_replaced {id : AnswerId} {a a' : Answer} (ha : c.answers.get? id = some a)
    (hanswers : c'.answers = c.answers.insert id a' ∨ c'.answers = c.answers.erase id)
    (hnext : c.messages.next ≤ c'.messages.next)
    (harena : c.Sealed r → c'.messages.arena r = c.messages.arena r)
    (hmessage : ∀ {e'}, a'.message = some e' → ∃ e, a.message = some e ∧ e'.arena = e.arena) :
    Spares r c c' := by
  refine of_records hnext harena fun {j x e'} hx he' => Or.inr ?_
  rcases Table.get?_of_replaced hanswers hx with ⟨-, rfl⟩ | ⟨-, hx⟩
  · obtain ⟨e, he, harena⟩ := hmessage he'
    exact ⟨id, a, e, ha, he, harena⟩
  · exact ⟨j, x, e', hx, he', rfl⟩

/-- A record keeps its return, or parts with it. -/
theorem of_rewritten {id : AnswerId} {a a' : Answer} (ha : c.answers.get? id = some a)
    (hanswers : c'.answers = c.answers.insert id a' ∨ c'.answers = c.answers.erase id)
    (hm : c'.messages = c.messages) (hmessage : a'.message = a.message ∨ a'.message = none) :
    Spares r c c' := by
  refine of_replaced ha hanswers (Nat.le_of_eq (by rw [hm])) (fun _ => by rw [hm]) fun {e'} he' => ?_
  rcases hmessage with hsame | hnone
  · exact ⟨e', hsame ▸ he', rfl⟩
  · exact absurd (hnone.symm.trans he') (by simp)

/-- The return that a record held is written to. -/
theorem of_put {id : AnswerId} {a a' : Answer} {e : Envelope} {m : Message}
    (ha : c.answers.get? id = some a) (he : a.message = some e)
    (hanswers : c'.answers = c.answers.insert id a') (hm : c'.messages = (c.messages.put e m).2)
    (hmessage : ∀ {e'}, a'.message = some e' → e'.arena = e.arena) : Spares r c c' := by
  refine of_replaced ha (Or.inl hanswers) (Nat.le_of_eq (by rw [hm]; rfl)) (fun hsealed => ?_)
    fun he' => ⟨e, he, hmessage he'⟩
  rw [hm]
  exact MessageStore.arena_putArena_of_ne _ (hsealed.parted ha he).symm _

end Spares

theorem spares_allocateResults (r : ArenaId) (c : Connection) (id : AnswerId) (size : ObjectSize) :
    Spares r c (c.allocateResults id size).2 := by
  unfold allocateResults
  split
  · exact .of_eq rfl (.refl _)
  · next a ha =>
      split
      · exact .of_eq rfl (.refl _)
      · next e hopen =>
          have hmsg : a.message = some e := ((a.openReturn_eq_ok_iff id e).1 hopen).2
          split <;> exact .of_put ha hmsg rfl rfl fun he' => Option.some.inj he' ▸ rfl

theorem spares_setBootstrap (r : ArenaId) (c : Connection) (id : AnswerId) (cap : Capability) :
    Spares r c (c.setBootstrap id cap).2 := by
  unfold setBootstrap
  split
  · exact .of_eq rfl (.refl _)
  · next a ha =>
      split
      · exact .of_eq rfl (.refl _)
      · next e hopen =>
          have hmsg : a.message = some e := ((a.openReturn_eq_ok_iff id e).1 hopen).2
          split <;> exact .of_put ha hmsg rfl rfl fun he' => Option.some.inj he' ▸ rfl

theorem spares_beginReturn (r : ArenaId) (c : Connection) (id : AnswerId) (result : Except Error Unit) :
    Spares r c (c.beginReturn id result).2 := by
  unfold beginReturn
  split
  · exact .of_eq rfl (.refl _)
  · next a ha =>
      dsimp only
      split
      · exact .of_rewritten ha (Or.inl rfl) rfl (Or.inr rfl)
      · next e hmsg =>
          simp only [returnResults, reportAll_shape]
          exact .of_put ha hmsg rfl rfl fun he' => absurd he' (by simp [Answer.complete])
      · next e x hmsg =>
          unfold returnError
          dsimp only
          split <;> exact .of_put ha hmsg rfl rfl fun he' => absurd he' (by simp [Answer.complete])

theorem spares_finish (r : ArenaId) (c : Connection) (id : AnswerId) (releaseCaps : Bool) :
    Spares r c (c.finish id releaseCaps) := by
  cases ha : c.answers.get? id with
  | none =>
      rw [c.finish_of_none releaseCaps ha]
      exact .of_eq rfl (.refl _)
  | some a =>
      obtain ⟨hs, ts, heq⟩ := c.finish_shape releaseCaps ha
      rw [heq]
      exact .of_rewritten ha (answers_putAnswer _ id _) rfl (Or.inl rfl)

theorem spares_rule (r : ArenaId) : SteadyRule (fun _ _ => True) (Spares r) where
  trans h h' hsealed := ⟨(h' (h hsealed).1).1, (h' (h hsealed).1).2.trans (h hsealed).2⟩
  quiet {c c'} h := by
    have hmessages : c'.messages = c.messages := congrArg Books.messages h
    exact .of_eq (congrArg Books.answers h) (hmessages ▸ .refl _)
  ends c id := by
    cases ha : c.answers.get? id with
    | none =>
        rw [c.endReturn_of_none ha]
        exact .of_eq rfl (.refl _)
    | some a =>
        obtain ⟨hs, heq⟩ := c.endReturn_shape ha
        rw [heq]
        exact .of_rewritten ha (answers_putAnswer _ id _) rfl (Or.inl rfl)
  admits c id token := by
    cases ha : c.answers.get? id with
    | some a =>
        rw [c.newAnswer_of_live token ha]
        exact .of_eq rfl (.refl _)
    | none =>
        obtain ⟨admission, ms, hs, heq, rfl, -⟩ := c.newAnswer_shape token ha
        obtain ⟨hadds, hnew⟩ := c.adds_reserveReturn id
        rw [heq]
        refine .of_records hadds.next (fun hsealed => hadds.same r hsealed.lt) fun {j x e'} hx he' => ?_
        rcases Table.get?_of_replaced (Or.inl rfl) hx with ⟨-, rfl⟩ | ⟨-, hx⟩
        · exact Or.inl (hnew e' (eq_ok_of_toOption he')).1
        · exact Or.inr ⟨j, x, e', hx, he', rfl⟩
  breaks c e := by
    have hadds := c.adds_beginDisconnect e
    rcases c.beginDisconnect_shape e with ⟨heq, -⟩ | ⟨-, ms, hs, p, heq, -⟩
    · rw [heq]
      exact .of_eq rfl (.refl _)
    · rw [heq] at hadds ⊢
      refine .of_records hadds.next (fun hsealed => hadds.same r hsealed.lt) fun {j b e'} hb he' => ?_
      have hget : (c.answers.mapValues fun a => { a with caller := none }).get? j = some b := hb
      rw [Table.get?_mapValues] at hget
      obtain ⟨a, ha, rfl⟩ := Option.map_eq_some_iff.1 hget
      exact Or.inr ⟨j, a, e', ha, he', rfl⟩
  works {c c'} _ h := by
    have hanswers : c'.answers = c.answers := congrArg Books.answers h
    have hmessages : c'.messages = c.messages := congrArg Books.messages h
    exact .of_eq hanswers (hmessages ▸ .refl _)
  cancels c id _ := by
    cases ha : c.answers.get? id with
    | none =>
        rw [c.cancelReturn_of_none ha]
        exact .of_eq rfl (.refl _)
    | some a =>
        obtain ⟨hs, heq⟩ := c.cancelReturn_shape ha
        rw [heq]
        exact .of_rewritten ha (answers_putAnswer _ id _) rfl (Or.inr rfl)
  allocates c id size := spares_allocateResults r c id size
  boots c id cap := spares_setBootstrap r c id cap

/-- Only a write through a handle to one of its structs touches a sealed arena, and it stays sealed. -/
theorem sealed_step {c : Connection} {r : ArenaId} (hsealed : c.Sealed r) (action : Action) :
    (c.step action).2.Sealed r ∧ ((c.step action).2.messages.arena r = c.messages.arena r ∨
      ∃ index change child, action = .edit ⟨r, index⟩ change ∧ (c.messages.arena r).edit index change =
        .ok (child, (c.step action).2.messages.arena r)) := by
  have hother : (∀ id name, action ≠ .setPipeline id name) → (∀ ref change, action ≠ .edit ref change) →
      Spares r c (c.step action).2 := fun hne hedit =>
    (spares_rule r).trans
      (c.transfer_cases action (.of_eq rfl (.refl _)) (spares_beginReturn r c) (spares_finish r c))
      ((spares_rule r).step_of_ne ⟨fun _ _ => trivial, fun _ _ _ _ _ => trivial⟩ hne hedit)
  cases action with
  | setPipeline id name =>
      have hroutes : Spares r c (c.setPipeline id name) := by
        rcases c.setPipeline_shape id name with heq | ⟨a, ha, -, heq⟩ <;> rw [heq]
        · exact .of_eq rfl (.refl _)
        · exact .of_rewritten ha (Or.inl rfl) rfl (Or.inl rfl)
      simp only [Connection.step]
      split
      · exact ⟨(hroutes hsealed).1, Or.inl (hroutes hsealed).2⟩
      · exact ⟨hsealed, Or.inl rfl⟩
  | edit ref change =>
      obtain ⟨s, index⟩ := ref
      simp only [Connection.step, MessageStore.edit]
      cases hedit : (c.messages.arena s).edit index change with
      | error e => exact ⟨hsealed, Or.inl rfl⟩
      | ok written =>
          obtain ⟨child, b⟩ := written
          refine ⟨⟨hsealed.lt, hsealed.parted⟩, ?_⟩
          by_cases hs : s = r
          · subst hs
            refine Or.inr ⟨index, change, child, rfl, ?_⟩
            rw [MessageStore.arena_putArena_self, hedit]
          · exact Or.inl (MessageStore.arena_putArena_of_ne _ (Ne.symm hs) _)
  | _ =>
      have hspares := hother (by simp) (by simp) hsealed
      exact ⟨hspares.1, Or.inl hspares.2⟩

/-- What a completed call reads its results from is sealed. -/
theorem Reachable.sealed {c : Connection} (hc : Reachable c) {id : AnswerId} {a : Answer}
    {r : ResultsRef} (ha : c.answers.get? id = some a) (hr : a.results = some r) : c.Sealed r.arena :=
  ⟨(hc.stored.results ha hr).1, fun ha' he => hc.stored.retained ha ha' hr he⟩

end Connection

end Callee
