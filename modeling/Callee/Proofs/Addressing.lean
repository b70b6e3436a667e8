import Callee.Proofs.References

set_option autoImplicit false

/-! # Whom a return is for

A return is addressed when it is reserved: it names the call that it answers, and says that the
capabilities which came with the parameters are not released. Everything that is written into it later
leaves that alone, results and exceptions alike, so what an answer holds is the return of its own call
(`Reachable.addressed`). `Sendable` says when such a return may go out, and `envelope_beginReturn` that
the beginning of a completion lets it go on exactly then. -/

namespace Callee

/-- The root is the return of the call with an id, and releases none of its parameters. -/
def ReturnFor (id : AnswerId) (root : Option Root) : Prop :=
  ∃ ret, root = some (.return ret) ∧ ret.answerId = id ∧ ret.releaseParamCaps = false

/-- Work on a message that leaves a return with its call. -/
def Message.KeepsAddress (m m' : Message) : Prop :=
  ∀ id, ReturnFor id m.root → ReturnFor id m'.root

namespace Message

/-! ## Writing into a return -/

theorem KeepsAddress.refl (m : Message) : m.KeepsAddress m := fun _ h => h

theorem KeepsAddress.trans {m m' m'' : Message} (h : m.KeepsAddress m') (h' : m'.KeepsAddress m'') :
    m.KeepsAddress m'' := fun id hm => h' id (h id hm)

/-- Changing what a return holds leaves it with its call. -/
theorem keepsAddress_of_outcome {m m' : Message} {ret : Return} {outcome : Outcome}
    (hroot : m.root = some (.return ret))
    (hroot' : m'.root = some (.return { ret with outcome := outcome })) : m.KeepsAddress m' := by
  rintro id ⟨ret', heq, hid, hrelease⟩
  rw [hroot] at heq
  obtain rfl := Root.return.inj (Option.some.inj heq)
  exact ⟨_, hroot', hid, hrelease⟩

/-- Every move that work on a message is made of. -/
theorem keepsAddress_rule : SealingRule KeepsAddress where
  refl := .refl
  trans h h' := h.trans h'
  charges _ := .refl _
  adds m _ := .refl m
  drops hroot _ := keepsAddress_of_outcome hroot rfl
  structs hroot _ _ := keepsAddress_of_outcome hroot rfl
  boots _ hroot := keepsAddress_of_outcome hroot rfl
  tables _ hroot _ := keepsAddress_of_outcome hroot rfl
  describes _ hroot _ := keepsAddress_of_outcome hroot rfl

/-! ## Exceptions -/

/-- There is room for an error with its whole text, as an exception. -/
def HasRoom (m : Message) (e : Error) : Prop :=
  ∀ limit, m.arena.wordLimit = some limit →
    m.arena.wordsUsed + exceptionWords.toNat + (textWords e.message).toNat ≤ limit

/-- If there is room, an error is written into a return with its sort and its whole text. Else it is an
    allocation that fails, and the return holds what it held or an exception that says nothing. -/
theorem writeException_cases {m : Message} {ret : Return} (hroot : m.root = some (.return ret)) (e : Error) :
    (m.HasRoom e ∧ (m.writeException e).1 = .ok () ∧ (m.writeException e).2.root = some (.return { ret with
        outcome := .exception { type := e.exceptionType, reason := e.message } })) ∨
      ¬ m.HasRoom e ∧ ∃ limit, m.arena.wordLimit = some limit ∧
        (m.writeException e).1 = .error (.sizeLimit limit) ∧
        ((m.writeException e).2.root = m.root ∨ (m.writeException e).2.root = some (.return { ret with
          outcome := .exception { type := e.exceptionType, reason := "" } })) := by
  have hret : m.getReturn = .ok ret := getReturn_eq_ok_iff.2 hroot
  unfold HasRoom writeException initException
  simp only [hret]
  cases ha : m.arena.allocate exceptionWords with
  | error x =>
      -- there is not even room for the exception
      obtain ⟨limit, hlimit, hlow, rfl⟩ := (m.arena.allocate_eq_error_iff _ _).1 ha
      refine Or.inr ⟨fun hroom => ?_, limit, hlimit, rfl, Or.inl rfl⟩
      have hfits := hroom limit hlimit
      omega
  | ok a =>
      obtain ⟨-, rfl⟩ := (m.arena.allocate_eq_ok_iff a exceptionWords).1 ha
      simp only [Except.map, setExceptionReason]
      cases hb : Arena.allocate { m.arena with wordsUsed := m.arena.wordsUsed + exceptionWords.toNat }
          (textWords e.message) with
      | error x =>
          obtain ⟨limit, hlimit, hlow, rfl⟩ := (Arena.allocate_eq_error_iff _ _ _).1 hb
          refine Or.inr ⟨fun hroom => ?_, limit, hlimit, rfl, Or.inr rfl⟩
          exact absurd (hroom limit hlimit) (Nat.not_le_of_lt hlow)
      | ok b =>
          have hfits := ((Arena.allocate_eq_ok_iff _ b (textWords e.message)).1 hb).1
          exact Or.inl ⟨hfits, rfl, rfl⟩

/-- An error is written into a return exactly if there is room for its whole text. -/
theorem writeException_eq_ok_iff {m : Message} {ret : Return} (hroot : m.root = some (.return ret))
    (e : Error) : (m.writeException e).1 = .ok () ↔ m.HasRoom e := by
  rcases writeException_cases hroot e with ⟨hroom, hok, -⟩ | ⟨hno, limit, -, herror, -⟩
  · exact iff_of_true hok hroom
  · exact iff_of_false (by rw [herror]; simp) hno

theorem root_of_writeException {m : Message} {ret : Return} (hroot : m.root = some (.return ret)) {e : Error}
    (h : (m.writeException e).1 = .ok ()) : (m.writeException e).2.root = some (.return { ret with
      outcome := .exception { type := e.exceptionType, reason := e.message } }) := by
  rcases writeException_cases hroot e with ⟨-, -, hwritten⟩ | ⟨-, limit, -, herror, -⟩
  · exact hwritten
  · exact absurd (h.symm.trans herror) (by simp)

theorem error_of_writeException {m : Message} {ret : Return} (hroot : m.root = some (.return ret)) {e x : Error}
    (h : (m.writeException e).1 = .error x) : ∃ limit, m.arena.wordLimit = some limit ∧ x = .sizeLimit limit := by
  rcases writeException_cases hroot e with ⟨-, hok, -⟩ | ⟨-, limit, hlimit, herror, -⟩
  · exact absurd (h.symm.trans hok) (by simp)
  · exact ⟨limit, hlimit, Except.error.inj (h.symm.trans herror)⟩

/-! ## Reserving a return -/

theorem returnFor_startReturn {m m' : Message} {id : AnswerId} (h : m.startReturn id = .ok m') :
    ReturnFor id m'.root := by
  obtain ⟨a, -, rfl⟩ := startReturn_eq_ok h
  exact ⟨_, rfl, rfl, rfl⟩

end Message

namespace Connection

/-! ## Beginning a completion -/

/-- What the beginning of a completion makes of a record: it completes, and beside that only its
    references and its results are new. -/
theorem beginReturn_record (c : Connection) {id : AnswerId} {a : Answer}
    (ha : c.answers.get? id = some a) (result : Except Error Unit) :
    ∃ begun ms x hs p error exports results, c.beginReturn id result = (some begun, { c with
      messages := ms, exports := x, history := hs, panicked := p, answers := c.answers.insert id
        { a.complete error with exports := exports, results := results } }) := by
  unfold beginReturn
  rw [ha]
  dsimp only
  split
  · exact ⟨_, _, _, _, _, _, _, _, rfl⟩
  · unfold returnResults
    simp only [reportAll_shape]
    exact ⟨_, _, _, _, _, _, _, _, rfl⟩
  · unfold returnError
    dsimp only
    split
    · exact ⟨_, _, _, _, _, _, _, _, rfl⟩
    · exact ⟨_, _, _, _, _, _, _, _, rfl⟩

/-- The return of a handle may go out: the connection is up, the return was reserved, and what the call
    completes with has room in it. -/
structure Sendable (c : Connection) (h : Handle) (result : Except Error Unit) : Prop where
  up : c.isDown = false
  room : ∃ a e, c.answers.get? h.id = some a ∧ a.message = some e ∧
    ∀ x, result = .error x → (c.messages.message e).HasRoom x

theorem envelope_returnResults (c : Connection) (id : AnswerId) (a : Answer) (e : Envelope) :
    ∃ e', (c.returnResults id a e).1.envelope = (if c.isDown then none else some e') ∧
      ∀ j, ReturnFor j e.root → ReturnFor j e'.root :=
  ⟨_, rfl, Message.keepsAddress_rule.writeResults c.exports (c.messages.message e) c.isDown⟩

theorem envelope_returnError (c : Connection) (id : AnswerId) (a : Answer) (e : Envelope) (x : Error) :
    ∃ e', (c.returnError id a e x).1.envelope =
        (if ((c.messages.message e).writeException x).1 = .ok () then
          if c.isDown then none else some e' else none) ∧
      ∀ j, ReturnFor j e.root → ReturnFor j e'.root := by
  refine ⟨(c.messages.put e ((c.messages.message e).writeException x).2).1, ?_,
    Message.keepsAddress_rule.writeException (c.messages.message e) x⟩
  unfold returnError
  dsimp only
  split
  · next y heq => rw [heq, if_neg (by simp)]
  · next heq =>
      rw [heq, if_pos rfl]
      rfl

/-- A return goes on exactly if it may go out, and it is the return of its call then. -/
theorem envelope_beginReturn (c : Connection) {h : Handle} {a : Answer}
    (ha : c.answers.get? h.id = some a)
    (haddress : ∀ e, a.message = some e → ReturnFor h.id e.root) (result : Except Error Unit)
    {begun : BegunReturn} {c' : Connection}
    (hbegin : c.beginReturn h.id result = (some begun, c')) :
    (∃ e', begun.envelope = some e' ∧ ReturnFor h.id e'.root ∧ c.Sendable h result) ∨
      begun.envelope = none ∧ ¬ c.Sendable h result := by
  unfold beginReturn at hbegin
  rw [ha] at hbegin
  dsimp only at hbegin
  -- what stands in the way of a return that does not go on
  have hblocked : ¬ (c.isDown = false ∧ ∃ e, a.message = some e ∧
      ∀ x, result = .error x → (c.messages.message e).HasRoom x) → ¬ c.Sendable h result := by
    rintro hnot ⟨hup, b, e, hb, hmsg, hroom⟩
    obtain rfl := Option.some.inj (ha.symm.trans hb)
    exact hnot ⟨hup, e, hmsg, hroom⟩
  split at hbegin
  · next hmsg =>
      obtain ⟨hbegun, -⟩ := Prod.mk.inj hbegin
      obtain rfl := Option.some.inj hbegun
      refine Or.inr ⟨rfl, hblocked ?_⟩
      rintro ⟨-, e, hsome, -⟩
      exact absurd (hmsg.symm.trans hsome) (by simp)
  · next e hmsg =>
      obtain ⟨e', henv, hkeeps⟩ := c.envelope_returnResults h.id (a.complete none) e
      obtain ⟨hbegun, -⟩ := Prod.mk.inj hbegin
      obtain rfl := Option.some.inj hbegun
      rw [henv]
      cases hdown : c.isDown with
      | true => exact Or.inr ⟨rfl, hblocked (by simp [hdown])⟩
      | false =>
          exact Or.inl ⟨e', rfl, hkeeps _ (haddress e hmsg), hdown, a, e, ha, hmsg, by simp⟩
  · next e x hmsg =>
      obtain ⟨e', henv, hkeeps⟩ := c.envelope_returnError h.id (a.complete (some x)) e x
      obtain ⟨hbegun, -⟩ := Prod.mk.inj hbegin
      obtain rfl := Option.some.inj hbegun
      obtain ⟨ret, hroot, -⟩ := haddress e hmsg
      have hwrite := Message.writeException_eq_ok_iff (m := c.messages.message e) hroot x
      rw [henv]
      by_cases hroom : (c.messages.message e).HasRoom x
      · rw [if_pos (hwrite.2 hroom)]
        cases hdown : c.isDown with
        | true => exact Or.inr ⟨rfl, hblocked (by simp [hdown])⟩
        | false =>
            refine Or.inl ⟨e', rfl, hkeeps _ (haddress e hmsg), hdown, a, e, ha, hmsg, ?_⟩
            rintro y hy
            obtain rfl := Except.error.inj hy
            exact hroom
      · rw [if_neg (mt hwrite.1 hroom)]
        refine Or.inr ⟨rfl, hblocked ?_⟩
        rintro ⟨-, d, hd, hfits⟩
        obtain rfl := Option.some.inj (hmsg.symm.trans hd)
        exact hroom (hfits x rfl)

/-! ## What answers hold -/

/-- What an answer holds is the return of its own call. -/
def Addressed (c : Connection) : Prop :=
  ∀ id a e, c.answers.get? id = some a → a.message = some e → ReturnFor id e.root

namespace Addressed

variable {c c' : Connection}

theorem of_eq (hc : c.Addressed) (h : c'.answers = c.answers) : c'.Addressed :=
  fun id a e ha => hc id a e (h ▸ ha)

/-- One answer is replaced by another that holds the return of the same call, or leaves the table. -/
theorem replace (hc : c.Addressed) {id : AnswerId} {a' : Answer}
    (h : c'.answers = c.answers.insert id a' ∨ c'.answers = c.answers.erase id)
    (ha' : ∀ e, a'.message = some e → ReturnFor id e.root) : c'.Addressed := by
  intro j x e hx he
  rcases Table.get?_of_replaced h hx with ⟨rfl, rfl⟩ | ⟨-, hx⟩
  · exact ha' e he
  · exact hc j x e hx he

/-- Working on an open return leaves it with its call. -/
theorem putReturn (hc : c.Addressed) {id : AnswerId} {a : Answer} {e : Envelope} {m : Message}
    (ha : c.answers.get? id = some a) (hopen : a.openReturn id = .ok e)
    (hkeeps : (c.messages.message e).KeepsAddress m) : (c.putReturn id a e m).Addressed := by
  have hmsg : a.message = some e := ((a.openReturn_eq_ok_iff id e).1 hopen).2
  refine hc.replace (Or.inl rfl) fun e' he' => ?_
  obtain rfl := Option.some.inj he'
  exact hkeeps id (hc id a e ha hmsg)

theorem allocateResults (hc : c.Addressed) (id : AnswerId) (size : ObjectSize) :
    (c.allocateResults id size).2.Addressed := by
  unfold Connection.allocateResults
  split
  · exact hc
  · next a ha =>
      split
      · exact hc
      · next e hopen =>
          have hkeeps := Message.keepsAddress_rule.allocateResults (c.messages.message e) size
          split
          · next heq => rw [heq] at hkeeps; exact hc.putReturn ha hopen hkeeps
          · next heq => rw [heq] at hkeeps; exact hc.putReturn ha hopen hkeeps

theorem setBootstrap (hc : c.Addressed) (id : AnswerId) (cap : Capability) :
    (c.setBootstrap id cap).2.Addressed := by
  unfold Connection.setBootstrap
  split
  · exact hc
  · next a ha =>
      split
      · exact hc
      · next e hopen =>
          have hkeeps := Message.keepsAddress_rule.setBootstrap (c.messages.message e) cap
          split
          · next heq => rw [heq] at hkeeps; exact hc.putReturn ha hopen hkeeps
          · next heq => rw [heq] at hkeeps; exact hc.putReturn ha hopen hkeeps

end Addressed

theorem returnFor_reserveReturn (c : Connection) (id : AnswerId) {e : Envelope}
    (h : (c.reserveReturn id).1 = .ok e) : ReturnFor id e.root := by
  unfold reserveReturn at h
  split at h
  · exact absurd h (by simp)
  · split at h
    · exact absurd h (by simp)
    · dsimp only at h
      split at h
      · exact absurd h (by simp)
      · next m hstart =>
          obtain rfl := Except.ok.inj h
          exact Message.returnFor_startReturn hstart

theorem addressed_rule : FullRule fun c c' => c.Addressed → c'.Addressed where
  trans h h' hc := h' (h hc)
  quiet h hc := hc.of_eq (congrArg Books.answers h)
  begins c id result hc := by
    cases ha : c.answers.get? id with
    | none =>
        rw [c.beginReturn_of_none result ha]
        exact hc
    | some a =>
        obtain ⟨begun, ms, x, hs, p, error, exports, results, heq⟩ := c.beginReturn_record ha result
        rw [heq]
        exact hc.replace (Or.inl rfl) fun e he => absurd he (by simp [Answer.complete])
  ends c id hc := by
    cases ha : c.answers.get? id with
    | none => rwa [c.endReturn_of_none ha]
    | some a =>
        obtain ⟨hs, heq⟩ := c.endReturn_shape ha
        rw [heq]
        exact hc.replace (answers_putAnswer _ id _) fun e he => hc id a e ha he
  admits c id token hc := by
    cases ha : c.answers.get? id with
    | some a => rwa [c.newAnswer_of_live token ha]
    | none =>
        obtain ⟨admission, ms, hs, heq, -⟩ := c.newAnswer_shape token ha
        rw [heq]
        exact hc.replace (Or.inl rfl) fun e he => c.returnFor_reserveReturn id (eq_ok_of_toOption he)
  breaks c e hc := by
    rcases c.beginDisconnect_shape e with ⟨heq, -⟩ | ⟨-, ms, hs, p, heq, -⟩
    · rwa [heq]
    · rw [heq]
      intro id b d hb hd
      have hget : (c.answers.mapValues fun a => { a with caller := none }).get? id = some b := hb
      rw [Table.get?_mapValues] at hget
      obtain ⟨a, ha, rfl⟩ := Option.map_eq_some_iff.1 hget
      exact hc id a d ha hd
  works _ h hc := hc.of_eq (congrArg Books.answers h)
  cancels c id hc := by
    cases ha : c.answers.get? id with
    | none => rwa [c.cancelReturn_of_none ha]
    | some a =>
        obtain ⟨hs, heq⟩ := c.cancelReturn_shape ha
        rw [heq]
        exact hc.replace (answers_putAnswer _ id _) fun e he =>
          absurd he (by simp [Answer.complete, Answer.markReturnSent])
  allocates _ id size hc := hc.allocateResults id size
  boots _ id cap hc := hc.setBootstrap id cap
  routes c id name hc := by
    rcases c.setPipeline_shape id name with heq | ⟨a, ha, -, heq⟩
    · rwa [heq]
    · rw [heq]
      exact hc.replace (Or.inl rfl) fun e he => hc id a e ha he
  edits c ref change hc := hc
  finishes c id releaseCaps hc := by
    cases ha : c.answers.get? id with
    | none =>
        rw [c.finish_of_none releaseCaps ha]
        exact hc
    | some a =>
        obtain ⟨hs, ts, heq⟩ := c.finish_shape releaseCaps ha
        rw [heq]
        exact hc.replace (answers_putAnswer _ id _) fun e he => hc id a e ha he

theorem Reachable.addressed {c : Connection} (hc : Reachable c) : c.Addressed :=
  addressed_rule.reachable (fun _ _ _ _ h => absurd h (by simp [Connection.initial])) hc

end Connection

end Callee
