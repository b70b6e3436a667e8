import Callee.Proofs.Polling
import Callee.Proofs.Records

set_option autoImplicit false

/-! # Where the error of a call comes from

The connection makes up one error itself for a call to complete with: that the executor gave up on it. Every
other error that a record notes was given by the executor when it completed the call (`caused_after`). -/

namespace Callee

namespace Connection

/-- A completion that has yet to begin was there before, or it is what the action takes up. -/
theorem unbegun_step {c : Connection} {action : Action} {u : TaskId} {k : Handle} {result : Except Error Unit}
    {guard : Option Token}
    (hget : (c.step action).2.tasks.get? u = some ⟨.sendReturn k (.unbegun result), guard⟩) :
    c.tasks.get? u = some ⟨.sendReturn k (.unbegun result), guard⟩ ∨ action = .sendReturn k result guard := by
  -- only polls and drops touch the tasks that there are
  have hidle : (∀ t, action ≠ .poll t) → (∀ t, action ≠ .dropTask t) →
      c.tasks.get? u = some ⟨.sendReturn k (.unbegun result), guard⟩ ∨
        action.task? = some ⟨.sendReturn k (.unbegun result), guard⟩ := by
    intro hpoll hdrop
    rcases c.tasks_step_of_idle hpoll hdrop with htasks | ⟨task, htask, htasks⟩
    · exact Or.inl (htasks ▸ hget)
    · rw [htasks, Table.get?_insert] at hget
      split at hget
      · exact Or.inr (htask.trans hget)
      · exact Or.inl hget
  cases action with
  | poll t =>
      refine Or.inl ?_
      rcases c.tasks_poll t with ⟨htasks, -⟩ | htasks | ⟨before, work, -, -, hleft, htasks⟩
      · exact htasks ▸ hget
      · rw [htasks, Table.get?_erase] at hget
        split at hget
        · exact absurd hget (by simp)
        · exact hget
      · rw [htasks, Table.get?_insert] at hget
        split at hget
        · -- what is left of a completion has begun
          obtain ⟨rfl, -⟩ := Task.mk.inj (Option.some.inj hget)
          obtain ⟨stage, -, hstage⟩ := left_of_run hleft
          exact absurd (by rw [hstage]; rfl) (c.owes_of_pollReturn t k stage)
        · exact hget
  | dropTask t =>
      refine Or.inl ?_
      cases ht : c.tasks.get? t with
      | none => simpa [step, Table.contains, ht] using hget
      | some task =>
          rw [step_dropTask_of_get? ht, c.tasks_dropTask ht, Table.get?_erase] at hget
          split at hget
          · exact absurd hget (by simp)
          · exact hget
  | sendReturn k' result' guard' =>
      rcases hidle (by simp) (by simp) with hold | hnew
      · exact Or.inl hold
      · obtain ⟨hwork, rfl⟩ := Task.mk.inj (Option.some.inj hnew)
        obtain ⟨rfl, hstage⟩ := Work.sendReturn.inj hwork
        obtain rfl := ReturnStage.unbegun.inj hstage
        exact Or.inr rfl
  | _ => exact (hidle (by simp) (by simp)).imp_right fun h => absurd h (by simp [Action.task?])

/-- An error that a record notes was noted before, or its call completes now: it is given up, or a task
    completes it with that error. -/
theorem error_step {c : Connection} {action : Action} {id : AnswerId} {b : Answer} {e : Error}
    (hb : (c.step action).2.answers.get? id = some b) (he : b.error = some e) :
    (∃ a, c.answers.get? id = some a ∧ a.error = some e) ∨ e = .callCanceled ∨
      ∃ t k guard, c.tasks.get? t = some ⟨.sendReturn k (.unbegun (.error e)), guard⟩ := by
  obtain ⟨b', hb', hrewrites⟩ := (renews_rule.step c action).2 id b hb
  rcases hrewrites.error with hsame | hcanceled
  · have he' : b'.error = some e := hsame.symm.trans he
    rcases hb' with hb' | ⟨-, call, token, message, rfl⟩
    · rcases record_transfer hb' with ⟨a, ha, hold, -⟩ | ⟨t, k, result, guard, a, hget, -, hcloses⟩
      · exact Or.inl ⟨a, ha, hold.symm.trans he'⟩
      · have hnoted := hcloses.error.symm.trans he'
        cases result with
        | ok u => exact absurd hnoted (by simp)
        | error x =>
            obtain rfl := Option.some.inj hnoted
            exact Or.inr (Or.inr ⟨t, k, guard, hget⟩)
    · exact absurd he' (by simp)
  · exact Or.inr (Or.inl (Option.some.inj (he.symm.trans hcanceled)))

/-- All errors that calls have completed with, or are to complete with, are of a sort. -/
structure Caused (I : Error → Prop) (c : Connection) : Prop where
  noted : ∀ {id a e}, c.answers.get? id = some a → a.error = some e → I e
  tasked : ∀ {t k e guard}, c.tasks.get? t = some ⟨.sendReturn k (.unbegun (.error e)), guard⟩ → I e

theorem Caused.step {I : Error → Prop} {c : Connection} (h : c.Caused I) (canceled : I .callCanceled)
    {action : Action} (given : ∀ k e guard, action = .sendReturn k (.error e) guard → I e) :
    (c.step action).2.Caused I where
  noted hb he := by
    rcases error_step hb he with ⟨a, ha, hold⟩ | rfl | ⟨t, k, guard, hget⟩
    · exact h.noted ha hold
    · exact canceled
    · exact h.tasked hget
  tasked hget := by
    rcases unbegun_step hget with hold | hnew
    · exact h.tasked hold
    · exact given _ _ _ hnew

theorem Caused.after {I : Error → Prop} {c : Connection} (h : c.Caused I) (canceled : I .callCanceled)
    (actions : List Action) (given : ∀ k e guard, .sendReturn k (.error e) guard ∈ actions → I e) :
    (c.after actions).Caused I := by
  induction actions generalizing c with
  | nil => exact h
  | cons action rest ih =>
      refine ih (h.step canceled fun k e guard hnow => given k e guard ?_) fun k e guard hlater => ?_
      · exact hnow ▸ List.mem_cons_self
      · exact given k e guard (List.mem_cons_of_mem _ hlater)

/-- Every error that a record notes is that its call was given up, or the executor gave it. -/
theorem caused_after (options : Options) (actions : List Action) :
    ((initial options).after actions).Caused fun e =>
      e = .callCanceled ∨ ∃ k guard, .sendReturn k (.error e) guard ∈ actions := by
  have hfirst : (initial options).Caused fun e =>
      e = .callCanceled ∨ ∃ k guard, .sendReturn k (.error e) guard ∈ actions :=
    ⟨fun ha => absurd ha (by simp [initial]), fun hget => absurd hget (by simp [initial])⟩
  exact hfirst.after (Or.inl rfl) actions fun k e guard hin => Or.inr ⟨k, guard, hin⟩

end Connection

end Callee
