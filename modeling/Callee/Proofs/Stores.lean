import Callee.Proofs.Views

set_option autoImplicit false

/-! # Rules for the store of messages

An operation of a connection starts a message, works on the return in one record, or writes through a handle
to a struct, and touches the store in no other way. A relation between stores that has these moves is a
`StoreRule`. It goes back to a rule for the messages themselves, and holds across all that a step calls
(`StoreRule.full`). -/

namespace Callee

/-- The moves that a store of messages changes by, with the rule that the work on one message follows. -/
structure StoreRule (R : Message → Message → Prop) (S : MessageStore → MessageStore → Prop) : Prop
    extends SealingRule R where
  starts : ∀ {m m' : Message} {id : AnswerId}, m.startReturn id = .ok m' → R m m'
  aborts : ∀ {m m' : Message} {e : Error}, (m.writeAbort e).value = .ok m' → R m m'
  stays : ∀ s, S s s
  chains : ∀ {s s' s'' : MessageStore}, S s s' → S s' s'' → S s s''
  creates : ∀ (s : MessageStore) wordLimit, S s (s.create wordLimit).2
  puts : ∀ {s : MessageStore} {e : Envelope} {m : Message}, R (s.message e) m → S s (s.put e m).2
  edits : ∀ (s : MessageStore) ref change, S s (s.edit ref change).2

namespace StoreRule

variable {R : Message → Message → Prop} {S : MessageStore → MessageStore → Prop}

/-! ## New messages -/

theorem reserve (rule : StoreRule R S) (c : Connection) : S c.messages c.reserve.2.messages := by
  unfold Connection.reserve
  dsimp only
  split
  · exact rule.stays _
  · exact rule.creates c.messages _

theorem reserveReturn (rule : StoreRule R S) (c : Connection) (id : AnswerId) :
    S c.messages (c.reserveReturn id).2.messages := by
  have hreserve := rule.reserve c
  unfold Connection.reserveReturn
  split
  · exact rule.stays _
  · split
    · next heq => rw [heq] at hreserve; exact hreserve
    · next heq =>
        rw [heq] at hreserve
        dsimp only
        split
        · exact hreserve
        · -- the return is started in the message that was created
          next m hstart => exact rule.chains hreserve (rule.puts (rule.starts hstart))

theorem reserveAbort (rule : StoreRule R S) (c : Connection) (e : Error) :
    S c.messages (c.reserveAbort e).2.messages := by
  have hreserve := rule.reserve c
  unfold Connection.reserveAbort
  split
  · next heq => rw [heq] at hreserve; exact hreserve
  · next heq =>
      rw [heq] at hreserve
      dsimp only
      split
      · exact hreserve
      · next m hwrite => exact rule.chains hreserve (rule.puts (rule.aborts hwrite))

theorem beginDisconnect (rule : StoreRule R S) (c : Connection) (e : Error) :
    S c.messages (c.beginDisconnect e).2.messages := by
  unfold Connection.beginDisconnect
  split
  · exact rule.stays _
  · exact rule.reserveAbort (c.breakLink e) e

/-! ## Work on a return -/

theorem revise (rule : StoreRule R S) (c : Connection) (id : AnswerId) {f : Message → Message}
    (hf : ∀ m : Message, R m (f m)) : S c.messages (c.revise id f).messages := by
  unfold Connection.revise
  split
  · exact rule.stays _
  · split
    · exact rule.stays _
    · exact rule.puts (hf _)

theorem beginReturn (rule : StoreRule R S) (c : Connection) (id : AnswerId) (result : Except Error Unit) :
    S c.messages (c.beginReturn id result).2.messages := by
  unfold Connection.beginReturn
  split
  · exact rule.stays _
  · dsimp only
    split
    · exact rule.stays _
    · next e hmsg =>
        simp only [Connection.returnResults, Connection.reportAll_shape]
        exact rule.puts (rule.writeResults c.exports _ c.isDown)
    · next e x hmsg =>
        have hput := rule.puts (rule.writeException (c.messages.message e) x)
        unfold Connection.returnError
        dsimp only
        split <;> exact hput

/-! ## Steps -/

theorem of_eq (rule : StoreRule R S) {c c' : Connection} (h : c'.messages = c.messages) :
    S c.messages c'.messages := by
  rw [h]
  exact rule.stays _

/-- What the moves of the store have, everything that a step calls has. -/
theorem full (rule : StoreRule R S) :
    Connection.FullRule fun c c' => S c.messages c'.messages where
  trans := rule.chains
  quiet h := rule.of_eq (congrArg Books.messages h)
  works _ h := rule.of_eq (congrArg Books.messages h)
  begins := rule.beginReturn
  breaks := rule.beginDisconnect
  edits c ref change := rule.edits c.messages ref change
  ends c id := by
    cases ha : c.answers.get? id with
    | none =>
        rw [c.endReturn_of_none ha]
        exact rule.stays _
    | some a =>
        obtain ⟨hs, heq⟩ := c.endReturn_shape ha
        rw [heq]
        exact rule.of_eq rfl
  admits c id token := by
    cases ha : c.answers.get? id with
    | some a =>
        rw [c.newAnswer_of_live token ha]
        exact rule.stays _
    | none =>
        obtain ⟨admission, ms, hs, heq, rfl, -⟩ := c.newAnswer_shape token ha
        rw [heq]
        exact rule.reserveReturn c id
  cancels c id := by
    cases ha : c.answers.get? id with
    | none =>
        rw [c.cancelReturn_of_none ha]
        exact rule.stays _
    | some a =>
        obtain ⟨hs, heq⟩ := c.cancelReturn_shape ha
        rw [heq]
        exact rule.of_eq rfl
  allocates c id size := by
    rw [Connection.allocateResults_eq_revise]
    exact rule.revise c id fun m => rule.allocateResults m size
  boots c id cap := by
    rw [Connection.setBootstrap_eq_revise]
    exact rule.revise c id fun m => rule.setBootstrap m cap
  routes c id name := by
    rcases c.setPipeline_shape id name with heq | ⟨a, -, -, heq⟩ <;> rw [heq] <;> exact rule.stays _
  finishes c id releaseCaps := by
    cases ha : c.answers.get? id with
    | none =>
        rw [c.finish_of_none releaseCaps ha]
        exact rule.stays _
    | some a =>
        obtain ⟨hs, ts, heq⟩ := c.finish_shape releaseCaps ha
        rw [heq]
        exact rule.of_eq rfl

end StoreRule

end Callee
