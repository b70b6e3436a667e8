import Callee.Proofs.Ending

set_option autoImplicit false

/-! # A connection ends once

However many disconnects and refused calls there are, and in whatever order they are polled, the first of
them that runs breaks the connection, and its error stays (`Breaks`). From then on one task at most looks
after the end, and what it has yet to tell the transport is exactly what the transport has not heard
(`EndsInOrder`). So the transport is handed one abort at most and is told to shut down once at most, after
the abort is done with, and if the task that broke the connection is polled to its end then it is told to
shut down (`Reachable.endsOnce`).

The task may also be dropped, and then nobody takes its place. -/

namespace Callee.Connection

/-! ## The course of the end -/

/-- What the transport has heard of the end of the connection, and who has to tell it the rest. -/
structure EndsInOrder (c : Connection) : Prop where
  /-- As long as the connection is up the transport has heard nothing, and no end has begun. -/
  up : c.isDown = false → c.aborts = [] ∧ c.shutdowns = [] ∧
    ∀ t task, c.tasks.get? t = some task → task.work.isEnding = false
  /-- One task at most looks after the end. -/
  unique : ∀ t u task other, c.tasks.get? t = some task → c.tasks.get? u = some other →
    task.work.isEnding = true → other.work.isEnding = true → u = t
  /-- What it has yet to tell the transport is what the transport has not heard. -/
  course : ∀ t task e stage, c.tasks.get? t = some task → task.work.ending? = some (e, stage) →
    stage.hasBegun = true → c.link = .broken e ∧ stage.shutdownsLeft e ++ c.shutdowns = [e] ∧
      c.aborts.length + stage.abortsLeft ≤ 1
  aborts : c.aborts.length ≤ 1
  shutdowns : ∀ e rest, c.shutdowns = e :: rest → rest = [] ∧ c.link = .broken e

namespace EndsInOrder

variable {c : Connection}

/-- What work that looks after the end has to tell the transport, and that no other work does so. -/
theorem owed (h : c.EndsInOrder) {t : TaskId} {task : Task} {e : Error} {stage : DisconnectStage}
    {left : Option DisconnectStage} (poll : c.EndPoll t task e stage left) :
    (if stage.hasBegun then c.link else .broken e) = .broken e ∧
      stage.shutdownsLeft e ++ c.shutdowns = [e] ∧ c.aborts.length + stage.abortsLeft ≤ 1 ∧
      ∀ u other, c.tasks.get? u = some other → other.work.isEnding = true → u = t := by
  cases hbegun : stage.hasBegun with
  | true =>
      have hending := ending_of_endsBy poll.goes hbegun
      obtain ⟨hlink, hshutdowns, haborts⟩ := h.course t task e stage poll.found hending hbegun
      refine ⟨hlink, hshutdowns, haborts, ?_⟩
      intro u other hget hother
      exact h.unique t u task other poll.found hget
        ((task.work.isEnding_iff).2 ⟨e, stage, hending, hbegun⟩) hother
  | false =>
      obtain rfl := DisconnectStage.eq_unbegun hbegun
      obtain ⟨haborts, hshutdowns, hnone⟩ := h.up (poll.first rfl)
      refine ⟨rfl, ?_, ?_, ?_⟩
      · rw [hshutdowns]
        rfl
      · rw [haborts]
        exact Nat.le_refl 1
      · intro u other hget hother
        exact absurd ((hnone u other hget).symm.trans hother) (by simp)

/-- What has nothing to do with the end leaves it as it is. -/
theorem of_aloof (h : c.EndsInOrder) {c' : Connection} (farewells : c'.farewells = c.farewells)
    (link : c'.link = c.link) (tasks : ∀ u task, c'.tasks.get? u = some task →
      task.work.isEnding = true → c.tasks.get? u = some task) : c'.EndsInOrder := by
  have haborts := aborts_of_farewells farewells
  have hshutdowns := shutdowns_of_farewells farewells
  refine ⟨?_, ?_, ?_, ?_, ?_⟩
  · intro hup
    rw [isDown_of_link link] at hup
    obtain ⟨hnoAborts, hnoShutdowns, hnone⟩ := h.up hup
    refine ⟨haborts.trans hnoAborts, hshutdowns.trans hnoShutdowns, ?_⟩
    intro t task hget
    cases hending : task.work.isEnding with
    | false => rfl
    | true => exact absurd ((hnone t task (tasks t task hget hending)).symm.trans hending) (by simp)
  · intro t u task other hget hother hending hending'
    exact h.unique t u task other (tasks t task hget hending) (tasks u other hother hending')
      hending hending'
  · intro t task e stage hget hstage hbegun
    have hending := (task.work.isEnding_iff).2 ⟨e, stage, hstage, hbegun⟩
    rw [link, haborts, hshutdowns]
    exact h.course t task e stage (tasks t task hget hending) hstage hbegun
  · rw [haborts]
    exact h.aborts
  · intro e rest htold
    rw [hshutdowns] at htold
    rw [link]
    exact h.shutdowns e rest htold

/-- A poll that looks after the end goes on with it in order. -/
theorem of_poll (h : c.EndsInOrder) {t : TaskId} {task : Task} {e : Error} {stage : DisconnectStage}
    {left : Option DisconnectStage} (poll : c.EndPoll t task e stage left) :
    (c.step (.poll t)).2.EndsInOrder := by
  obtain ⟨hlink, hshutdowns, haborts, honly⟩ := h.owed poll
  have link := poll.link.trans hlink
  have hsum := poll.told.shutdowns.trans hshutdowns
  have hcount := Nat.le_trans poll.told.aborts haborts
  -- whoever looks after the end afterwards is the task that ran
  have hran : ∀ u other, (c.step (.poll t)).2.tasks.get? u = some other →
      other.work.isEnding = true → u = t := by
    intro u other hget hending
    by_cases hu : u = t
    · exact hu
    · exact honly u other (poll.others u other hu hget hending) hending
  refine ⟨?_, ?_, ?_, ?_, ?_⟩
  · intro hup
    unfold isDown at hup
    rw [link] at hup
    exact absurd hup (by simp)
  · intro u v task₁ task₂ hget hget' hending hending'
    exact (hran v task₂ hget' hending').trans (hran u task₁ hget hending).symm
  · intro u task' e' stage' hget hstage hbegun
    obtain rfl := hran u task' hget ((task'.work.isEnding_iff).2 ⟨e', stage', hstage, hbegun⟩)
    obtain ⟨next, rfl, hnext⟩ := poll.remains task' hget
    obtain ⟨rfl, rfl⟩ := Prod.mk.inj (Option.some.inj (hstage.symm.trans hnext))
    exact ⟨link, hsum, hcount⟩
  · exact Nat.le_trans (Nat.le_add_right _ _) hcount
  · intro e' rest htold
    rw [htold] at hsum
    obtain ⟨-, hone⟩ | ⟨-, hnil⟩ := List.append_eq_singleton_iff.1 hsum
    · obtain ⟨rfl, rfl⟩ := List.cons.inj hone
      exact ⟨rfl, link⟩
    · exact absurd hnil (by simp)

theorem step (h : c.EndsInOrder) (action : Action) : (c.step action).2.EndsInOrder := by
  cases c.parts action with
  | aloof farewells link tasks => exact h.of_aloof farewells link tasks
  | ends isPoll poll =>
      subst isPoll
      exact h.of_poll poll

/-- Once the transport was told to shut down it hears nothing more of the end. -/
theorem farewells_step (h : c.EndsInOrder) (hover : c.shutdowns ≠ []) (action : Action) :
    (c.step action).2.farewells = c.farewells := by
  cases c.parts action with
  | aloof farewells link tasks => exact farewells
  | @ends t task e stage left isPoll poll =>
      subst isPoll
      obtain ⟨-, hshutdowns, -⟩ := h.owed poll
      refine poll.silent ?_
      obtain ⟨hnil, -⟩ | ⟨-, hnil⟩ := List.append_eq_singleton_iff.1 hshutdowns
      · exact hnil
      · exact absurd hnil hover

end EndsInOrder

theorem Reachable.endsInOrder {c : Connection} (hc : Reachable c) : c.EndsInOrder := by
  induction hc with
  | initial options =>
      refine ⟨?_, ?_, ?_, Nat.zero_le 1, ?_⟩
      · intro _
        exact ⟨rfl, rfl, fun t task hget => absurd hget (by simp [Connection.initial])⟩
      · intro t u task other hget
        exact absurd hget (by simp [Connection.initial])
      · intro t task e stage hget
        exact absurd hget (by simp [Connection.initial])
      · intro e rest htold
        exact absurd htold (by simp [Connection.initial, shutdowns])
  | step action _ ih => exact ih.step action

/-! ## The error -/

/-- What broke a connection is kept. -/
theorem link_after {c : Connection} {e : Error} (hlink : c.link = .broken e) (actions : List Action) :
    (c.after actions).link = .broken e := by
  induction actions generalizing c with
  | nil => exact hlink
  | cons action rest ih =>
      refine ih ?_
      rcases c.link_step action with ⟨e', ⟨hup, -⟩, -⟩ | ⟨-, hsame⟩
      · rw [(c.isDown_eq_false_iff).1 hup] at hlink
        exact absurd hlink (by simp)
      · exact hsame.trans hlink

/-- A connection that is up is broken by the first work that ends it, and by nothing else. -/
theorem broken_step_iff {c : Connection} (hup : c.isDown = false) (action : Action) (e : Error) :
    (c.step action).2.link = .broken e ↔ c.Breaks action e := by
  refine ⟨fun hlink => ?_, fun h => (broken_step h).1⟩
  rcases c.link_step action with ⟨e', h, hbroken⟩ | ⟨-, hsame⟩
  · obtain rfl := Link.broken.inj (hbroken.symm.trans hlink)
    exact h
  · rw [hsame, (c.isDown_eq_false_iff).1 hup] at hlink
    exact absurd hlink (by simp)

/-- On a broken connection a call under a free id gets an answer that cannot be sent, with the error that
    broke it. -/
theorem newAnswer_of_broken {c : Connection} {e : Error} (hlink : c.link = .broken e) {id : AnswerId}
    (hfree : c.answers.get? id = none) (token : Token) :
    (c.newAnswer id token).1 = .unsendable ⟨id, c.nextCall⟩ e ∧
      (c.newAnswer id token).2.history = c.history ∧
      (c.newAnswer id token).2.transport = c.transport := by
  have hunused : c.answers.contains id = false := by simp [Table.contains, hfree]
  have hreserve : c.reserveReturn id = (.error e, c) := by simp [reserveReturn, hlink]
  simp [newAnswer, hunused, hreserve]

/-! ## Looking after the end -/

/-- A task looks after the end of the connection. -/
def LooksAfter (c : Connection) (t : TaskId) (e : Error) : Prop :=
  ∃ task stage, c.tasks.get? t = some task ∧ task.work.ending? = some (e, stage) ∧
    stage.hasBegun = true

/-- A task is polled over a run until it is over. -/
def IsOverIn (c : Connection) (t : TaskId) (actions : List Action) : Prop :=
  PollsTo (fun reply => reply.isOver = true) c t actions

/-- A task that is gone does not come to be over. -/
theorem not_isOverIn_of_gone {c : Connection} {t : TaskId} {actions : List Action} (hlt : t < c.nextTask)
    (hgone : c.tasks.get? t = none) : ¬ c.IsOverIn t actions := by
  intro hover
  exact absurd (missing_of_pollsTo hlt hgone hover) (by simp [Reply.isOver, TaskPoll.isOver])

/-- The poll that breaks the connection begins to look after its end. -/
theorem endPoll_of_breaks {c : Connection} {t : TaskId} {e : Error} (h : c.Breaks (.poll t) e) :
    ∃ task left, c.EndPoll t task e .unbegun left := by
  have hlink := (broken_step h).1
  obtain ⟨hup, u, task, heq, hget, hlive, hends⟩ := h
  obtain rfl := Action.poll.inj heq
  cases c.parts (.poll t) with
  | aloof farewells link tasks =>
      rw [link, (c.isDown_eq_false_iff).1 hup] at hlink
      exact absurd hlink (by simp)
  | @ends v task' e' stage left isPoll poll =>
      obtain rfl := Action.poll.inj isPoll
      obtain rfl := Option.some.inj (poll.found.symm.trans hget)
      obtain ⟨rfl, rfl⟩ := Prod.mk.inj (Option.some.inj (poll.goes.symm.trans hends))
      exact ⟨task', left, poll⟩

/-- When a poll that looks after the end is the last one, the transport was told to shut down. -/
theorem shutdowns_of_over {c : Connection} (h : c.EndsInOrder) {t : TaskId} {task : Task} {e : Error}
    {stage : DisconnectStage} {left : Option DisconnectStage} (poll : c.EndPoll t task e stage left)
    (hover : (c.step (.poll t)).1.isOver = true) : (c.step (.poll t)).2.shutdowns = [e] := by
  obtain ⟨-, hshutdowns, -⟩ := h.owed poll
  obtain rfl := poll.isOver hover
  exact poll.told.shutdowns.trans hshutdowns

/-- A poll that looks after the end goes on with it, unless the task is gone. -/
theorem looksAfter_of_poll {c : Connection} {t : TaskId} {task : Task} {e : Error}
    {stage : DisconnectStage} {left : Option DisconnectStage} (poll : c.EndPoll t task e stage left) :
    (c.step (.poll t)).2.LooksAfter t e ∨ (c.step (.poll t)).2.tasks.get? t = none := by
  cases hget : (c.step (.poll t)).2.tasks.get? t with
  | none => exact Or.inr rfl
  | some task' =>
      obtain ⟨next, hleft, hnext⟩ := poll.remains task' hget
      exact Or.inl ⟨task', next, hget, hnext, poll.told.begun next hleft⟩

/-- A task that looks after the end does so until it is over or dropped. -/
theorem looksAfter_step {c : Connection} (hc : Reachable c) {t : TaskId} {e : Error}
    (hlooks : c.LooksAfter t e) (action : Action) :
    (c.step action).2.LooksAfter t e ∨ (c.step action).2.tasks.get? t = none := by
  obtain ⟨task, stage, hget, hending, hbegun⟩ := hlooks
  cases hafter : (c.step action).2.tasks.get? t with
  | none => exact Or.inr rfl
  | some task' =>
      cases c.taskStep action hafter with
      | kept before idle =>
          obtain rfl := Option.some.inj (before.symm.trans hget)
          exact Or.inl ⟨task', stage, hafter, hending, hbegun⟩
      | spawned number fresh =>
          exact absurd (hc.tasksBelow t task hget) (by simp [number])
      | ran isPoll found live left eq =>
          obtain rfl := Option.some.inj (found.symm.trans hget)
          obtain ⟨rest, poll⟩ := endPoll_of_begun hget live hending hbegun
          rw [isPoll] at hafter ⊢
          exact (looksAfter_of_poll poll).imp_right fun hgone => hafter.symm.trans hgone

/-- What the transport was told stays as it is once it was told to shut down. -/
theorem farewells_after {c : Connection} (hc : Reachable c) (hover : c.shutdowns ≠ [])
    (actions : List Action) : (c.after actions).farewells = c.farewells := by
  induction actions generalizing c with
  | nil => rfl
  | cons action rest ih =>
      have hstep := hc.endsInOrder.farewells_step hover action
      have hrest : (c.step action).2.shutdowns ≠ [] := by
        rw [shutdowns_of_farewells hstep]
        exact hover
      exact (ih (.step action hc) hrest).trans hstep

theorem shutdowns_after {c : Connection} (hc : Reachable c) {e : Error} (htold : c.shutdowns = [e])
    (actions : List Action) : (c.after actions).shutdowns = [e] :=
  (shutdowns_of_farewells (farewells_after hc (by simp [htold]) actions)).trans htold

/-- A poll that is the last one of a task that looks after the end finds it live. -/
theorem live_of_isOver {c : Connection} {t : TaskId} {task : Task} (hget : c.tasks.get? t = some task)
    (hover : (c.step (.poll t)).1.isOver = true) : task.guard.any c.isCanceled = false := by
  cases hcancel : task.guard.any c.isCanceled with
  | false => rfl
  | true =>
      rw [step_poll_of_canceled hget hcancel] at hover
      exact absurd hover (by simp [Reply.isOver, TaskPoll.isOver])

/-- A task that looks after the end and is polled until it is over has told the transport to shut down. -/
theorem shutdowns_of_isOverIn {c : Connection} (hc : Reachable c) {t : TaskId} {e : Error}
    (hlooks : c.LooksAfter t e) (actions : List Action) (hover : c.IsOverIn t actions) :
    (c.after actions).shutdowns = [e] := by
  induction actions generalizing c with
  | nil =>
      obtain ⟨before, more, heq, -⟩ := hover
      exact absurd heq (by simp)
  | cons action rest ih =>
      have hlt : t < (c.step action).2.nextTask := by
        obtain ⟨task, stage, hget, -⟩ := hlooks
        exact Nat.lt_of_lt_of_le (hc.tasksBelow t task hget) (tasksFrom_rule.step c action).1
      rcases (pollsTo_cons_iff _ c t action rest).1 hover with ⟨rfl, hnow⟩ | hlater
      · obtain ⟨task, stage, hget, hending, hbegun⟩ := hlooks
        obtain ⟨left, poll⟩ := endPoll_of_begun hget (live_of_isOver hget hnow) hending hbegun
        exact shutdowns_after (.step _ hc) (shutdowns_of_over hc.endsInOrder poll hnow) rest
      · rcases looksAfter_step hc hlooks action with hnext | hgone
        · exact ih (.step action hc) hnext hlater
        · exact absurd hlater (not_isOverIn_of_gone hlt hgone)

/-! ## All connections -/

/-- The connection comes to its end once. -/
structure EndsOnce (c : Connection) : Prop where
  /-- What is broken stays so. -/
  down : c.isDown = true → ∀ actions, (c.after actions).isDown = true
  /-- A connection that is up is broken by the first work to end it that is polled, and by nothing else. -/
  first : c.isDown = false → ∀ action e, (c.step action).2.link = .broken e ↔ c.Breaks action e
  /-- Its error is kept. -/
  kept : ∀ e, c.link = .broken e → ∀ actions, (c.after actions).link = .broken e
  /-- A call under a free id is then answered with that error, and the transport is not turned to. -/
  refuses : ∀ e, c.link = .broken e → ∀ id, c.answers.get? id = none → ∀ token,
    (c.step (.newAnswer id token)).1 = .admitted (.unsendable ⟨id, c.nextCall⟩ e) ∧
      (c.step (.newAnswer id token)).2.history = c.history ∧
      (c.step (.newAnswer id token)).2.transport = c.transport
  /-- So is one that is accepted in a task. -/
  refusesTask : ∀ e, c.link = .broken e → ∀ t id token guard,
    c.tasks.get? t = some ⟨.accept (.unbegun id token), guard⟩ → guard.any c.isCanceled = false →
    c.answers.get? id = none →
    (c.step (.poll t)).1 = .polled (.admitted (.unsendable ⟨id, c.nextCall⟩ e)) ∧
      (c.step (.poll t)).2.history = c.history ∧ (c.step (.poll t)).2.transport = c.transport
  /-- One abort is handed over at most. -/
  oneAbort : c.aborts.length ≤ 1
  /-- The transport is told to shut down once at most, with the error that broke the connection. -/
  oneShutdown : c.shutdowns = [] ∨ ∃ e, c.shutdowns = [e] ∧ c.link = .broken e
  /-- It is told so when a poll is done with the abort. -/
  afterAbort : ∀ action, (c.step action).2.shutdowns ≠ c.shutdowns →
    ∃ t task e stage, action = .poll t ∧ c.tasks.get? t = some task ∧
      c.endsBy task.work = some (e, stage) ∧ (c.beforeEnd task.work).AbortOver t e stage
  /-- No abort is on its way then or later, and none is handed over or accepted. -/
  last : c.shutdowns ≠ [] → ∀ actions, (c.after actions).farewells = c.farewells ∧
    ∀ t task e send, (c.after actions).tasks.get? t = some task →
      task.work.ending? ≠ some (e, .aborting send)
  /-- If the task that breaks the connection is polled until it is over, the transport is told. -/
  told : ∀ t e, c.Breaks (.poll t) e → ∀ more, c.IsOverIn t (.poll t :: more) →
    (c.after (.poll t :: more)).shutdowns = [e]

/-- Every connection that can come about comes to its end once. -/
theorem Reachable.endsOnce {c : Connection} (hc : Reachable c) : c.EndsOnce where
  down hdown actions := isDown_after hc hdown actions
  first hup action e := broken_step_iff hup action e
  kept _ hlink actions := link_after hlink actions
  refuses e hlink id hfree token := by
    obtain ⟨hreply, hhistory, htransport⟩ := newAnswer_of_broken hlink hfree token
    exact ⟨congrArg Reply.admitted hreply, hhistory, htransport⟩
  refusesTask e hlink t id token guard hget hlive hfree := by
    obtain ⟨hreply, hhistory, htransport⟩ := newAnswer_of_broken hlink hfree token
    obtain ⟨hpolled, ts, hstep⟩ := step_poll_of_live hget hlive
    rw [run_accept_of_free t token hfree] at hpolled hstep
    rw [hpolled, hstep]
    exact ⟨congrArg (fun a => Reply.polled (.admitted a)) hreply, hhistory, htransport⟩
  oneAbort := hc.endsInOrder.aborts
  oneShutdown := by
    cases htold : c.shutdowns with
    | nil => exact Or.inl rfl
    | cons e rest =>
        obtain ⟨rfl, hlink⟩ := hc.endsInOrder.shutdowns e rest htold
        exact Or.inr ⟨e, rfl, hlink⟩
  afterAbort action hchanged := by
    cases c.parts action with
    | aloof farewells link tasks => exact absurd (shutdowns_of_farewells farewells) hchanged
    | @ends t task e stage left isPoll poll =>
        subst isPoll
        exact ⟨t, task, e, stage, rfl, poll.found, poll.goes, poll.abort hchanged⟩
  last hover actions := by
    have hsame := farewells_after hc hover actions
    refine ⟨hsame, ?_⟩
    intro t task e send hget hending
    obtain ⟨-, hshutdowns, -⟩ :=
      (hc.after actions).endsInOrder.course t task e (.aborting send) hget hending rfl
    rw [shutdowns_of_farewells hsame] at hshutdowns
    exact hover (List.cons.inj hshutdowns).2
  told t e hbreaks more hover := by
    obtain ⟨task, left, poll⟩ := endPoll_of_breaks hbreaks
    rcases (pollsTo_cons_iff _ c t (.poll t) more).1 hover with ⟨-, hnow⟩ | hlater
    · exact shutdowns_after (.step _ hc) (shutdowns_of_over hc.endsInOrder poll hnow) more
    · rcases looksAfter_of_poll poll with hnext | hgone
      · exact shutdowns_of_isOverIn (.step _ hc) hnext more hlater
      · have hlt : t < (c.step (.poll t)).2.nextTask :=
          Nat.lt_of_lt_of_le (hc.tasksBelow t task poll.found) (tasksFrom_rule.step c _).1
        exact absurd hlater (not_isOverIn_of_gone hlt hgone)

/-- A run in which a call under an id in use and a disconnect are both to end the connection, and the abort
    of the one that comes first is held up. -/
def rivalsRun : List Action :=
  [.newAnswer 1 "first", .accept 1 "second", .disconnect (.external .failed "bye"), .gateSend, .poll 1,
    .poll 0, .newAnswer 2 "third", .openGate 0, .poll 1]

theorem endsOnce_after_rivals :
    ((initial {}).after rivalsRun).link = .broken (.external .failed "bye") ∧
      ((initial {}).after rivalsRun).shutdowns = [.external .failed "bye"] ∧
      ((initial {}).after rivalsRun).aborts.length = 1 ∧ ((initial {}).after rivalsRun).EndsOnce :=
  ⟨by decide +kernel, by decide +kernel, by decide +kernel,
    ((Reachable.initial {}).after rivalsRun).endsOnce⟩

end Callee.Connection
