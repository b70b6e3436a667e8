import Callee.Proofs.Departures
import Callee.Proofs.Trees

set_option autoImplicit false

/-! # Roots in all messages

Every operation keeps the trees in the arenas of all messages, and keeps roots what were roots
(`MessageStore.Spreads`). So the content of a return under construction is a root (`Reachable.rooted`). Once
the call has completed, what it completed with is published: the record reads it, the message is on its way
out, or the transport keeps it (`Published`). Nothing is ever published but what a call completes with
(`published_step`), so that it has the arena to itself from then on (`Reachable.atRest`, `AtRest.after`). -/

namespace Callee

/-! ## The store -/

namespace MessageStore

/-- Trees stay trees, and roots of messages that are there stay roots. -/
structure Spreads (s s' : MessageStore) : Prop where
  next : s.next ≤ s'.next
  trees : (∀ r, (s.arena r).Tree) → ∀ r, (s'.arena r).Tree
  loose : (∀ r, (s.arena r).Tree) → ∀ {r p}, r < s.next → (s.arena r).Loose p → (s'.arena r).Loose p

theorem Spreads.refl (s : MessageStore) : s.Spreads s := ⟨Nat.le_refl _, fun h => h, fun _ _ _ _ h => h⟩

theorem Spreads.trans {s s' s'' : MessageStore} (h : s.Spreads s') (h' : s'.Spreads s'') : s.Spreads s'' where
  next := Nat.le_trans h.next h'.next
  trees hs := h'.trees (h.trees hs)
  loose hs _ _ hr hp := h'.loose (h.trees hs) (Nat.lt_of_lt_of_le hr h.next) (h.loose hs hr hp)

theorem spreads_of_arena {s s' : MessageStore} (hnext : s.next ≤ s'.next)
    (h : ∀ r, (s.arena r).Spreads (s'.arena r)) : s.Spreads s' where
  next := hnext
  trees hs r := (h r).tree (hs r)
  loose hs r _ _ hp := (h r).loose (hs r) hp

theorem spreads_putArena {s : MessageStore} {id : ArenaId} {a : Arena} (h : (s.arena id).Spreads a) :
    s.Spreads (s.putArena id a) := by
  refine spreads_of_arena (Nat.le_refl _) fun r => ?_
  by_cases hr : r = id
  · subst hr
    rw [arena_putArena_self]
    exact h
  · rw [arena_putArena_of_ne s hr]
    exact .refl _

theorem spreads_create (s : MessageStore) (wordLimit : Option Nat) : s.Spreads (s.create wordLimit).2 := by
  refine ⟨Nat.le_succ _, fun hs r => ?_, fun hs r p hr hp => ?_⟩
  · rw [arena_create]
    split
    · exact Arena.tree_empty wordLimit
    · exact hs r
  · rw [arena_create, if_neg (Nat.ne_of_lt hr)]
    exact hp

theorem spreads_edit (s : MessageStore) (ref : StructRef) (change : StructEdit) :
    s.Spreads (s.edit ref change).2 := by
  unfold edit
  split
  · exact .refl s
  · next h => exact spreads_putArena (Arena.spreads_edit h)

end MessageStore

theorem Envelope.arena_of_results? {e : Envelope} {x : ResultsRef} (h : e.results? = some x) :
    x.arena = e.arena := by
  rw [Envelope.results?_eq] at h
  obtain ⟨p, -, rfl⟩ := Option.map_eq_some_iff.1 h
  rfl

namespace Connection

/-- The moves of the store keep trees and roots. -/
theorem spreads_storeRule : StoreRule Message.Spreads MessageStore.Spreads where
  toSealingRule := Message.spreads_rule
  starts := Message.spreads_startReturn
  aborts := Message.spreads_writeAbort
  stays := .refl
  chains h h' := h.trans h'
  creates := MessageStore.spreads_create
  puts h := MessageStore.spreads_putArena h.arena
  edits := MessageStore.spreads_edit

theorem spreads_rule : FullRule fun c c' => c.messages.Spreads c'.messages := spreads_storeRule.full

/-- In every message the structs and capabilities hang together as trees. -/
theorem Reachable.trees {c : Connection} (hc : Reachable c) : ∀ r, (c.messages.arena r).Tree := by
  induction hc with
  | initial options => exact fun r => Arena.tree_empty none
  | @step c action _ ih => exact (spreads_rule.step c action).trees ih

/-- What a return under construction points to is a root. -/
theorem Reachable.rooted {c : Connection} (hc : Reachable c) {id : AnswerId} {a : Answer} {e : Envelope}
    (ha : c.answers.get? id = some a) (he : a.message = some e) : (c.messages.message e).Rooted := by
  have hreserved : ∀ limit id m, ({ arena := { wordLimit := limit } } : Message).startReturn id = .ok m →
      m.arena.Tree ∧ m.Rooted := by
    intro limit id m hstart
    have hspreads := Message.spreads_startReturn hstart
    have hempty : ({ arena := { wordLimit := limit } } : Message).Rooted :=
      fun p hp => absurd hp (by simp [Message.attached?])
    exact ⟨hspreads.arena.tree (Arena.tree_empty limit), hspreads.rooted (Arena.tree_empty limit) hempty⟩
  have hreworked : ∀ (d : Deed) (m : Message), m.arena.Tree ∧ m.Rooted →
      (d.rework m).arena.Tree ∧ (d.rework m).Rooted := by
    rintro d m ⟨htree, hrooted⟩
    have hspreads := d.spreads_rework m
    exact ⟨hspreads.arena.tree htree, hspreads.rooted htree hrooted⟩
  have hopen : a.state.resultsReady = false := ((hc.reckoning.answers id a ha).unbegun e he).2.2.2
  exact (hc.draft_induction hreserved hreworked ⟨id, a.call⟩ _ (draft?_of_record ha rfl hopen he)).2

/-! ## What is published -/

/-- The results of a call that has completed: the record reads them, they are on their way out, or the
    transport keeps them. -/
inductive Published (c : Connection) (x : ResultsRef) : Prop
  | kept {id : AnswerId} {a : Answer} (found : c.answers.get? id = some a) (reads : a.results = some x)
  | leaving {t : TaskId} {y : Option CallId × SendStage} (outgoing : c.outgoing t = some y)
      (results : y.2.envelope.results? = some x)
  | sent {e : Envelope} (mem : e ∈ c.transport.sent) (results : e.results? = some x)

/-- Nobody holds a return in the arena of what is published. -/
theorem Published.isSealed {c : Connection} (hc : Reachable c) {x : ResultsRef} (h : c.Published x) :
    c.Sealed x.arena := by
  cases h with
  | kept found reads => exact hc.sealed found reads
  | leaving outgoing results => exact Envelope.arena_of_results? results ▸ hc.parted.outgoing _ _ outgoing
  | sent mem results => exact Envelope.arena_of_results? results ▸ hc.parted.sent _ mem

/-- A call completes with results: those in its return, once what is to be written into it is. -/
def Produces (c d : Connection) (x : ResultsRef) : Prop :=
  ∃ id a e, c.answers.get? id = some a ∧ a.message = some e ∧
    let m := (c.exports.writeResults (c.messages.message e) c.isDown).message
    d.messages = (c.messages.put e m).2 ∧ (c.messages.put e m).1.results? = some x

namespace Produces

variable {c d : Connection} {x y : ResultsRef}

/-- Nothing was published in the arena before. -/
theorem not_sealed (h : c.Produces d x) : ¬ c.Sealed x.arena := by
  obtain ⟨id, a, e, ha, he, -, hx⟩ := h
  exact fun hsealed => hsealed.parted ha he (MessageStore.arena_of_results? hx).symm

theorem lt (hc : Reachable c) (h : c.Produces d x) : x.arena < d.messages.next := by
  obtain ⟨id, a, e, ha, he, hmessages, hx⟩ := h
  rw [hmessages, MessageStore.arena_of_results? hx]
  exact (hc.stored.opened ha he).1

/-- There is one such completion in an arena at most. -/
theorem unique (hc : Reachable c) (hx : c.Produces d x) (hy : c.Produces d y) (h : y.arena = x.arena) :
    y = x := by
  obtain ⟨id, a, e, ha, he, -, hx⟩ := hx
  obtain ⟨id', a', e', ha', he', -, hy⟩ := hy
  have hx' : x.arena = e.arena := MessageStore.arena_of_results? hx
  have hy' : y.arena = e'.arena := MessageStore.arena_of_results? hy
  have hsame : e'.arena = e.arena := hy'.symm.trans (h.trans hx')
  obtain rfl : id' = id := hc.stored.apart ha ha' he he' hsame
  obtain rfl := Option.some.inj (ha'.symm.trans ha)
  obtain rfl := Option.some.inj (he'.symm.trans he)
  exact Option.some.inj (hy.symm.trans hx)

/-- What is written into a return keeps its content a root. -/
theorem loose (hc : Reachable c) (h : c.Produces d x) : (d.messages.arena x.arena).Loose x.content := by
  obtain ⟨id, a, e, ha, he, hmessages, hx⟩ := h
  have hspreads := Message.spreads_rule.writeResults c.exports (c.messages.message e) c.isDown
  have hrooted := hspreads.rooted (hc.trees e.arena) (hc.rooted ha he)
  rw [Envelope.results?_eq] at hx
  obtain ⟨p, hp, rfl⟩ := Option.map_eq_some_iff.1 hx
  rw [hmessages]
  show (MessageStore.arena (c.messages.put e _).2 e.arena).Loose p
  rw [MessageStore.put, MessageStore.arena_putArena_self]
  exact hrooted p hp

end Produces

/-- Whatever is published was published before, or a call completes with it now. -/
theorem published_step {c : Connection} (hc : Reachable c) {action : Action} {x : ResultsRef}
    (h : (c.step action).2.Published x) : c.Published x ∨ c.Produces (c.transfer action) x := by
  have hposted : ∀ e, c.posts action = some e → e.results? = some x →
      c.Published x ∨ c.Produces (c.transfer action) x := by
    intro e he hx
    rcases posts_cases hc he with ⟨t, y, hy, rfl⟩ | ⟨d, result, m, hdeparts, rfl⟩ | ⟨exc, hroot⟩
    · exact Or.inl (.leaving hy hx)
    · obtain ⟨k, a, ha, hmsg, hsendable⟩ := hdeparts.held
      have hmessages := hdeparts.messages
      cases hdeparts.seals with
      | results =>
          rw [← hsendable.up] at hmessages hx
          exact Or.inr ⟨k.id, a, d, ha, hmsg, hmessages, hx⟩
      | exception y =>
          -- there is room for the exception, so it is in the return
          obtain ⟨ret, hroot, -⟩ := hc.addressed k.id a d ha hmsg
          obtain ⟨a', d', ha', hmsg', hroom⟩ := hsendable.room
          obtain rfl := Option.some.inj (ha.symm.trans ha')
          obtain rfl := Option.some.inj (hmsg.symm.trans hmsg')
          have hwritten := (Message.writeException_eq_ok_iff (m := c.messages.message d) hroot y).2
            (hroom y rfl)
          have hexception := Message.root_of_writeException (m := c.messages.message d) hroot hwritten
          exact absurd hx (by simp [Envelope.results?_eq, MessageStore.put, hexception, Root.content?])
    · exact absurd hx (by simp [Envelope.results?_eq, hroot, Root.content?])
  cases h with
  | @kept id a' found reads =>
      obtain ⟨a, ha | ⟨-, call, token, message, rfl⟩, hrewrites⟩ := (renews_rule.step c action).2 id a' found
      · have hx : a.results = some x := hrewrites.results.symm.trans reads
        rcases record_transfer ha with ⟨b, hb, -, hsame⟩ | ⟨t, k, result, guard, b, -, hb, hcloses⟩
        · exact Or.inl (.kept hb (hsame.symm.trans hx))
        · rcases hcloses.results with hsame | ⟨e, he, hmessages, hresults⟩
          · exact Or.inl (.kept hb (hsame.symm.trans hx))
          · exact Or.inr ⟨id, b, e, hb, he, hmessages, hresults.symm.trans hx⟩
      · -- a new record reads nothing
        exact absurd (hrewrites.results.symm.trans reads) (by simp)
  | leaving outgoing results =>
      rcases outgoing_step hc action outgoing with hbefore | hnew
      · exact Or.inl (.leaving hbefore results)
      · exact hposted _ hnew results
  | sent mem results =>
      rcases c.accepts_step action _ mem with hbefore | hnew
      · exact Or.inl (.sent hbefore results)
      · exact hposted _ hnew results

/-! ### Runs -/

/-- Results have an arena to themselves: no record builds a return there, they are a root of it, and nothing
    else is published there. -/
structure AtRest (c : Connection) (x : ResultsRef) : Prop where
  isSealed : c.Sealed x.arena
  loose : (c.messages.arena x.arena).Loose x.content
  one : ∀ {y}, c.Published y → y.arena = x.arena → y = x

theorem AtRest.step {c : Connection} (hc : Reachable c) {x : ResultsRef} (h : c.AtRest x) (action : Action) :
    (c.step action).2.AtRest x where
  isSealed := (sealed_step h.isSealed action).1
  loose := (spreads_rule.step c action).loose hc.trees h.isSealed.lt h.loose
  one hy hsame := by
    rcases published_step hc hy with hold | hnew
    · exact h.one hold hsame
    · exact absurd (hsame ▸ h.isSealed) hnew.not_sealed

theorem AtRest.after {c : Connection} (hc : Reachable c) {x : ResultsRef} (h : c.AtRest x)
    (actions : List Action) : (c.after actions).AtRest x := by
  induction actions generalizing c with
  | nil => exact h
  | cons action rest ih => exact ih (.step action hc) (h.step hc action)

theorem Reachable.atRest {c : Connection} (hc : Reachable c) {x : ResultsRef} (hx : c.Published x) :
    c.AtRest x := by
  induction hc with
  | initial options =>
      rcases hx with ⟨found, -⟩ | ⟨outgoing, -⟩ | ⟨mem, -⟩
      · exact absurd found (by simp [Connection.initial])
      · exact absurd outgoing (by simp [Connection.outgoing, Connection.initial])
      · exact absurd mem (by simp [Connection.initial])
  | @step c action hc ih =>
      rcases published_step hc hx with hold | hnew
      · exact (ih hold).step hc action
      · have htrees := (spreads_rule.transfer c action).trees hc.trees
        refine ⟨hx.isSealed (.step action hc),
          (spreads_rule.toStepRule.step c action).loose htrees (hnew.lt hc) (hnew.loose hc), ?_⟩
        intro y hy hsame
        -- until now there was a return under construction in the arena, and nothing was published there
        rcases published_step hc hy with hold' | hnew'
        · exact absurd (hsame ▸ hold'.isSealed hc) hnew.not_sealed
        · exact hnew.unique hc hnew' hsame

end Connection

end Callee
