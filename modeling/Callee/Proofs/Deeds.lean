import Callee.Proofs.Breaking
import Callee.Proofs.Views

set_option autoImplicit false

/-! # What is done to a call

The one lemma of this file about steps is `view?_step`: what a connection shows of a call after a step comes
from what it showed before by the deeds of the action. It is put together from what each operation makes of
a view, and from the custody of handles, which says that an operation that goes through a handle finds the
record of that handle's call. Over a run the deeds are done one after the other (`view?_after`). A call
enters with nothing but its reserved return (`view?_of_new`). -/

namespace Callee.Connection

open Books

/-! ## Running calls read no results -/

/-- What a running call has built is read by nobody yet. -/
def Unread (answers : Table AnswerId Answer) : Prop :=
  ∀ id a, answers.get? id = some a → a.state.resultsReady = false → a.results = none

/-- One record is replaced, or leaves the table. -/
theorem Unread.replace {answers answers' : Table AnswerId Answer} (h : Unread answers) {id : AnswerId}
    {a' : Answer} (replaced : answers' = answers.insert id a' ∨ answers' = answers.erase id)
    (ha' : a'.state.resultsReady = false → a'.results = none) : Unread answers' := by
  intro j x hx hopen
  rcases Table.get?_of_replaced replaced hx with ⟨-, rfl⟩ | ⟨-, hx⟩
  · exact ha' hopen
  · exact h j x hx hopen

/-- A running call has been running, and what its record reads was read then. -/
theorem Rewrites.of_running {Q : Answer → Prop} {a a' : Answer} (h : Rewrites Q a a')
    (hopen : a'.state.resultsReady = false) : a.state.resultsReady = false ∧ a'.results = a.results := by
  induction h with
  | same => exact ⟨hopen, rfl⟩
  | canceled _ _ _ => exact absurd hopen (by simp [Answer.markReturnSent, Answer.complete])
  | marked _ ih => exact ih hopen
  | worked _ e _ ih => exact ih hopen
  | routed _ name _ ih => exact ih hopen
  | cut _ ih => exact ih hopen

theorem Renews.unread {Q : Answer → Prop} {c c' : Connection} (h : c.Renews Q c')
    (hc : Unread c.answers) : Unread c'.answers := by
  intro id a' ha' hopen
  obtain ⟨a, ha, hrewrites⟩ := h.2 id a' ha'
  obtain ⟨hbefore, hsame⟩ := hrewrites.of_running hopen
  rw [hsame]
  rcases ha with ha | ⟨-, call, token, message, rfl⟩
  · exact hc id a ha hbefore
  · rfl

theorem unread_rule : FullRule fun c c' => Unread c.answers → Unread c'.answers where
  toStepRule := renews_rule.mono (fun h h' hc => h' (h hc)) Renews.unread
  begins c id result hc := by
    cases ha : c.answers.get? id with
    | none => rwa [c.beginReturn_of_none result ha]
    | some a =>
        obtain ⟨begun, ms, x, hs, p, a', heq, -, -, hstate⟩ := c.beginReturn_shape result ha
        rw [heq]
        exact hc.replace (Or.inl rfl) fun hopen => absurd (hstate ▸ hopen) (by simp)
  finishes c id releaseCaps hc := by
    cases ha : c.answers.get? id with
    | none => rwa [c.finish_of_none releaseCaps ha]
    | some a =>
        obtain ⟨hs, ts, heq⟩ := c.finish_shape releaseCaps ha
        rw [heq]
        exact hc.replace (answers_putAnswer _ id _) fun hopen => hc id a ha hopen

theorem Reachable.unread {c : Connection} (hc : Reachable c) : Unread c.answers :=
  unread_rule.reachable (fun options id a ha => absurd ha (by simp [Connection.initial])) hc

/-! ## Running calls -/

theorem running_of_view? {c : Connection} {h : Handle} {caller : Option CallerName}
    {draft : Option Message} (hview : c.view? h = some (.running caller draft)) :
    ∃ a, c.answers.get? h.id = some a ∧ a.call = h.call ∧ a.state.resultsReady = false ∧
      a.caller = caller ∧ a.message.map c.messages.message = draft := by
  obtain ⟨a, ha, hcall, hrun⟩ := (c.view?_eq_some_iff h _).1 hview
  unfold viewOf at hrun
  split at hrun
  · exact absurd hrun (by simp)
  · next hready =>
      obtain ⟨hcaller, hdraft⟩ := View.running.inj hrun
      exact ⟨a, ha, hcall, by simpa using hready, hcaller, hdraft⟩

/-- The return of a running call is worked on, if it has one. -/
theorem view?_revise {c : Connection} {h : Handle} {caller : Option CallerName} {draft : Option Message}
    (hview : c.view? h = some (.running caller draft)) (f : Message → Message) :
    (c.revise h.id f).view? h = some (.running caller (draft.map f)) := by
  obtain ⟨a, ha, hcall, hopen, rfl, rfl⟩ := running_of_view? hview
  unfold revise
  rw [ha]
  dsimp only
  unfold Answer.openReturn
  rw [if_neg (by simp [hopen])]
  cases hmsg : a.message with
  | none => exact hview.trans (by rw [hmsg]; rfl)
  | some e =>
      refine (view?_eq_some_iff _ h _).2 ⟨{ a with message := some (c.messages.put e _).1 },
        Table.get?_insert_self _ _ _, hcall, ?_⟩
      simp only [viewOf, hopen, Bool.false_eq_true, if_false, Option.map_some]
      exact congrArg (View.running a.caller) (congrArg some (MessageStore.message_put _ e _))

/-- A record whose call is given up shows that. -/
theorem view?_cancelReturn {c : Connection} {h : Handle} {v : View}
    (hview : (c.cancelReturn h.id).view? h = some v) : v = .completed (.error .callCanceled) := by
  obtain ⟨x, hx, hcall, rfl⟩ := (view?_eq_some_iff _ h v).1 hview
  cases ha : c.answers.get? h.id with
  | none =>
      rw [c.cancelReturn_of_none ha, ha] at hx
      exact absurd hx (by simp)
  | some a =>
      obtain ⟨hs, heq⟩ := c.cancelReturn_shape ha
      rw [heq] at hx
      rcases Table.get?_of_replaced (answers_putAnswer _ h.id _) hx with ⟨-, rfl⟩ | ⟨hne, -⟩
      · rfl
      · exact absurd rfl hne

/-- A record that begins to complete shows what its call completes with. -/
theorem view?_beginReturn {c : Connection} (hc : Reachable c) {h : Handle} {caller : Option CallerName}
    {draft : Option Message} (hview : c.view? h = some (.running caller draft))
    (result : Except Error Unit) : (c.beginReturn h.id result).2.view? h =
      some ((View.running caller draft).after (.complete c.isDown result)) := by
  obtain ⟨a, ha, hcall, hopen, rfl, rfl⟩ := running_of_view? hview
  have hunread := hc.unread h.id a ha hopen
  have hshows : ∀ {c' : Connection} {a' : Answer} {v : View},
      c'.answers = c.answers.insert h.id a' → a'.call = a.call → c'.viewOf a' = v →
        c'.view? h = some v := by
    intro c' a' v hanswers hsame hv
    refine (c'.view?_eq_some_iff h v).2 ⟨a', ?_, hsame.trans hcall, hv⟩
    rw [hanswers, Table.get?_insert_self]
  cases hmsg : a.message with
  | none =>
      cases result with
      | error e =>
          simp only [beginReturn, ha, hmsg]
          exact hshows rfl rfl rfl
      | ok u =>
          simp only [beginReturn, ha, hmsg]
          refine hshows rfl rfl ?_
          simp [viewOf, Answer.complete, View.after, hunread]
  | some e =>
      cases result with
      | error x =>
          simp only [beginReturn, ha, hmsg, returnError]
          split <;> exact hshows rfl rfl rfl
      | ok u =>
          simp only [beginReturn, ha, hmsg, returnResults, reportAll_shape]
          refine hshows rfl rfl ?_
          simp only [viewOf, Answer.complete, AnswerState.resultsReady_markResultsReady, if_true,
            Option.map_some, View.after, Option.bind_some, MessageStore.results?_put,
            results?_writeResults]

/-! ## Writes, receivers and the end of the connection -/

/-- A write is seen where the struct is in the return under construction, or in the results. -/
theorem view?_edit (c : Connection) (h : Handle) (ref : StructRef) (change : StructEdit) :
    ({ c with messages := (c.messages.edit ref change).2 }).view? h = (c.view? h).map fun v =>
      if c.arenaOf? h = some ref.arena then v.after (.edit ref.index change) else v := by
  cases ha : c.answers.get? h.id with
  | none => simp [view?, ha]
  | some a =>
      by_cases hcall : a.call = h.call
      · simp only [view?, arenaOf?, ha, hcall, Option.bind_some, if_true, Option.map_some]
        refine congrArg some ?_
        cases hready : a.state.resultsReady with
        | false =>
            cases hmsg : a.message with
            | none => simp [viewOf, hready, hmsg]
            | some e =>
                simp only [viewOf, hready, hmsg, Bool.false_eq_true, if_false, Option.map_some,
                  MessageStore.message, MessageStore.arena_edit, Option.some.injEq]
                split <;> rfl
        | true =>
            cases herr : a.error with
            | some x =>
                simp only [viewOf, hready, herr, if_true]
                split <;> rfl
            | none =>
                cases hres : a.results with
                | none => simp [viewOf, hready, herr, hres]
                | some r =>
                    simp only [viewOf, hready, herr, hres, if_true, Option.map_some, MessageStore.arena_edit,
                      Option.some.injEq]
                    split <;> rfl
      · simp [view?, ha, hcall]

/-- A receiver is installed where the call is running. -/
theorem view?_setPipeline (c : Connection) (h : Handle) (id : AnswerId) (name : CallerName) :
    (c.setPipeline id name).view? h =
      (c.view? h).map fun v => if id = h.id then v.after (.route name) else v := by
  unfold setPipeline
  cases ha : c.answers.get? id with
  | none =>
      by_cases hid : id = h.id
      · subst hid
        simp [view?, ha]
      · simp [hid]
  | some a =>
      dsimp only
      split
      · next hready =>
          by_cases hid : id = h.id
          · subst hid
            by_cases hcall : a.call = h.call <;> simp [view?, ha, hcall, viewOf, hready]
            cases a.error with
            | some x => rfl
            | none => cases a.results <;> rfl
          · simp [hid]
      · next hopen =>
          by_cases hid : id = h.id
          · subst hid
            by_cases hcall : a.call = h.call <;> simp [view?, ha, hcall, viewOf, hopen, View.after]
          · simp [view?, Table.get?_insert_of_ne _ (Ne.symm hid), hid, viewOf]

theorem viewOf_cut (c : Connection) (a : Answer) :
    c.viewOf { a with caller := none } = (c.viewOf a).after .cut := by
  unfold viewOf
  dsimp only
  split
  · cases a.error with
    | some e => rfl
    | none => cases a.results <;> rfl
  · rfl

/-- The end of the connection takes a running call its receiver. -/
theorem view?_beginDisconnect {c : Connection} (hc : c.books.Stored) (hup : c.isDown = false) (e : Error)
    {h : Handle} {v : View} (hview : (c.beginDisconnect e).2.view? h = some v) :
    ∃ u, c.view? h = some u ∧ v = u.after .cut := by
  have hadds := c.adds_beginDisconnect e
  rcases c.beginDisconnect_shape e with ⟨-, hdown⟩ | ⟨-, ms, hs, p, heq, -⟩
  · exact absurd (hup.symm.trans hdown) (by simp)
  · obtain ⟨b, hb, hcall, rfl⟩ := (view?_eq_some_iff _ h v).1 hview
    rw [heq] at hb hadds ⊢
    have hget : (c.answers.mapValues fun a => { a with caller := none }).get? h.id = some b := hb
    rw [Table.get?_mapValues] at hget
    obtain ⟨a, ha, rfl⟩ := Option.map_eq_some_iff.1 hget
    refine ⟨c.viewOf a, (c.view?_eq_some_iff h _).2 ⟨a, ha, hcall, rfl⟩, ?_⟩
    rw [← viewOf_cut]
    exact viewOf_congr (.refl _) (fun d hd => hadds.same _ (hc.opened ha hd).1)
      fun r hr => hadds.same _ (hc.results ha hr).1

/-! ## Calls that come in -/

/-- The return that a call gets when it comes in, if one can be reserved. -/
def reservation (c : Connection) (id : AnswerId) : Option Message :=
  match c.link, c.transport.failReservations with
  | .up, none => (({ arena := { wordLimit := c.transport.wordLimit } } : Message).startReturn id).toOption
  | _, _ => none

theorem message_reserveReturn (c : Connection) (id : AnswerId) :
    (c.reserveReturn id).1.toOption.map (c.reserveReturn id).2.messages.message = c.reservation id := by
  unfold reserveReturn reservation
  cases c.link with
  | broken e => rfl
  | up =>
      cases hfail : c.transport.failReservations with
      | some e => simp [reserve, emit, hfail, Except.toOption]
      | none =>
          have hblank : (c.messages.create c.transport.wordLimit).2.message
              (c.messages.create c.transport.wordLimit).1 =
                { arena := { wordLimit := c.transport.wordLimit } } := by
            simp [MessageStore.create, MessageStore.message, MessageStore.arena]
          simp only [reserve, emit, hfail, hblank]
          cases Message.startReturn { arena := { wordLimit := c.transport.wordLimit } } id with
          | error e => rfl
          | ok m => simp [Except.toOption]

/-- A call comes in with a number that no call had before, and with nothing but its reserved return. -/
theorem view?_newAnswer {c : Connection} (hc : c.books.Stored) (id : AnswerId) (token : Token) {h : Handle}
    {v : View} (hview : (c.newAnswer id token).2.view? h = some v) :
    c.view? h = some v ∨ h.call = c.nextCall ∧ v = .running none (c.reservation h.id) := by
  cases ha : c.answers.get? id with
  | some a =>
      rw [c.newAnswer_of_live token ha] at hview
      exact Or.inl hview
  | none =>
      obtain ⟨admission, ms, hs, heq, rfl, -⟩ := c.newAnswer_shape token ha
      obtain ⟨hadds, -⟩ := c.adds_reserveReturn id
      rw [heq] at hview
      obtain ⟨x, hx, hcall, rfl⟩ := (view?_eq_some_iff _ h v).1 hview
      rcases Table.get?_of_replaced (Or.inl rfl) hx with ⟨hid, rfl⟩ | ⟨-, hx⟩
      · refine Or.inr ⟨hcall.symm, ?_⟩
        rw [hid, ← message_reserveReturn]
        rfl
      · refine Or.inl ((c.view?_eq_some_iff h _).2 ⟨x, hx, hcall, ?_⟩)
        exact (viewOf_congr (.refl x) (fun e he => hadds.same _ (hc.opened hx he).1)
          fun r hr => hadds.same _ (hc.results hx hr).1).symm

/-! ## One step -/

/-- What is shown of a call afterwards comes from what was shown before by some deeds, or the call has just
    come in. -/
def Undergoes (h : Handle) (ds : List Deed) (c c' : Connection) : Prop :=
  ∀ v', c'.view? h = some v' → (∃ v, c.view? h = some v ∧ v' = ds.foldl View.after v) ∨
    h.call = c.nextCall ∧ v' = .running none (c.reservation h.id)

theorem undergoes_of_passes {h : Handle} {c c' : Connection} (hc : c.books.Stored)
    (passes : Passes h c c') : Undergoes h [] c c' :=
  fun v' hv' => Or.inl ⟨v', (passes hc).2 v' hv', rfl⟩

theorem undergoes_newAnswer {c : Connection} (hc : c.books.Stored) (h : Handle) (id : AnswerId)
    (token : Token) : Undergoes h [] c (c.newAnswer id token).2 := by
  intro v' hv'
  rcases view?_newAnswer hc id token hv' with hview | hborn
  · exact Or.inl ⟨v', hview, rfl⟩
  · exact Or.inr hborn

/-- The record that a handle finds is that of its own call, which is running as long as it is being
    built. -/
theorem other_of_holds {c : Connection} (hc : Reachable c) {p : Holder} {k h : Handle} {s : HandleStage}
    (hold : c.books.Holds p k s) (hne : k ≠ h) (a : Answer) (ha : c.answers.get? k.id = some a)
    (hid : k.id = h.id) : a.call ≠ h.call := by
  intro hcall
  obtain ⟨b, hb, hown, -⟩ := hc.custody.found_at hold
  obtain rfl := Option.some.inj (ha.symm.trans hb)
  have hsame : k.call = h.call := hown.symm.trans hcall
  exact hne (by cases k; cases h; simp_all)

theorem exists_running {c : Connection} (hc : Reachable c) {p : Holder} {h : Handle}
    (hold : c.books.Holds p h .building) : ∃ caller draft, c.view? h = some (.running caller draft) := by
  obtain ⟨a, ha, hcall, hfit⟩ := hc.custody.found_at hold
  have hopen : a.state.resultsReady = false := hfit.2
  have hrun : c.viewOf a = .running a.caller (a.message.map c.messages.message) := by
    simp only [viewOf, hopen, Bool.false_eq_true, if_false]
  exact ⟨_, _, (c.view?_eq_some_iff h _).2 ⟨a, ha, hcall, hrun⟩⟩

theorem undergoes_of_some {h : Handle} {c c' : Connection} {v : View} {d : Deed}
    (hview : c.view? h = some v) (hview' : ∀ v', c'.view? h = some v' → v' = v.after d) :
    Undergoes h [d] c c' :=
  fun v' hv' => Or.inl ⟨v, hview, hview' v' hv'⟩

/-- The executor works on the return of a call through a handle that stands alone. -/
theorem undergoes_revise {c : Connection} (hc : Reachable c) (h : Handle) {k : Handle}
    (hheld : c.holds k = true) {f : Message → Message} {d : Deed}
    (does : ∀ caller draft, (View.running caller draft).after d = .running caller (draft.map f))
    (stored : c.books.Stored → (c.revise k.id f).books.Stored) :
    Undergoes h (if k = h ∧ c.holds k = true then [d] else []) c (c.revise k.id f) := by
  by_cases hk : k = h
  · subst hk
    obtain ⟨caller, draft, hview⟩ := exists_running hc (holds_executor hheld)
    rw [if_pos ⟨rfl, hheld⟩]
    refine undergoes_of_some hview fun v' hv' => ?_
    rw [view?_revise hview] at hv'
    exact (Option.some.inj hv').symm.trans (does caller draft).symm
  · rw [if_neg fun both => hk both.1]
    exact undergoes_of_passes hc.stored
      (passes_revise h c f stored (other_of_holds hc (holds_executor hheld) hk))

/-- A call is given up. -/
theorem undergoes_cancelReturn {c c' : Connection} (hc : Reachable c) (h : Handle) {k : Handle}
    {p : Holder} (holds : c.books.Holds p k .building)
    (same : c'.answers = c.answers ∧ c'.messages = c.messages) :
    Undergoes h (if k = h then [.giveUp] else []) c (c'.cancelReturn k.id) := by
  obtain ⟨answers, messages⟩ := same
  by_cases hk : k = h
  · subst hk
    obtain ⟨caller, draft, hview⟩ := exists_running hc holds
    rw [if_pos rfl]
    exact undergoes_of_some hview fun v' hv' => view?_cancelReturn hv'
  · rw [if_neg hk]
    refine undergoes_of_passes hc.stored ((passes_works h answers messages).trans ?_)
    refine passes_cancelReturn h c' fun a ha => other_of_holds hc holds hk a ?_
    rwa [← answers]

/-! ## Polls -/

theorem not_broke_of_stands {c c' : Connection} (h : c.Stands c') : ¬ c.Broke c' :=
  fun hbroke => hbroke.2 (h.link.trans hbroke.1)

/-- A task is dropped, by an action that says so or because it was told to cancel. -/
theorem undergoes_dropTask {c : Connection} (hc : Reachable c) (h : Handle) {t : TaskId} {task : Task}
    (hget : c.tasks.get? t = some task) :
    Undergoes h (if (task.work.completion? h).isSome then [.giveUp] else []) c (c.dropTask t) := by
  have hfree : (({ c with tasks := c.tasks.erase t }).freeSender t).books =
      ({ c with tasks := c.tasks.erase t } : Connection).books := books_freeSender _ t
  have hpasses : Passes h c (({ c with tasks := c.tasks.erase t }).freeSender t) :=
    passes_works h (congrArg Books.answers hfree) (congrArg Books.messages hfree)
  obtain ⟨work, guard⟩ := task
  unfold dropTask
  rw [hget]
  cases work with
  | accept stage => exact undergoes_of_passes hc.stored hpasses
  | disconnect e stage => exact undergoes_of_passes hc.stored hpasses
  | sendReturn k stage =>
      cases stage with
      | draining w => exact undergoes_of_passes hc.stored hpasses
      | sending send f => exact undergoes_of_passes hc.stored (hpasses.trans (passes_endReturn h _ k.id))
      | unbegun result =>
          have hbuilding : c.books.Holds (.task t) k .building := (taskOwes_of_get? hget).trans rfl
          have hgiven := undergoes_cancelReturn hc h hbuilding
            ⟨congrArg Books.answers hfree, congrArg Books.messages hfree⟩
          simp only [Work.completion?]
          by_cases hk : k = h <;> simpa [hk] using hgiven

/-- The completion of a call is looked after. -/
theorem undergoes_pollReturn {c : Connection} (hc : Reachable c) (h : Handle) {k : Handle}
    {t : TaskId} {stage : ReturnStage} {guard : Option Token}
    (hget : c.tasks.get? t = some ⟨.sendReturn k stage, guard⟩) :
    Undergoes h (((Work.sendReturn k stage).completion? h).elim [] fun result =>
      [.complete c.isDown result]) c (c.pollReturn t k stage).2 := by
  have hrest := (passes_returnRule h).pollReturn c t k stage
  cases stage with
  | draining w => exact undergoes_of_passes hc.stored hrest
  | sending send f => exact undergoes_of_passes hc.stored hrest
  | unbegun result =>
      have hbuilding : c.books.Holds (.task t) k .building := (taskOwes_of_get? hget).trans rfl
      simp only [Work.completion?]
      by_cases hk : k = h
      · subst hk
        obtain ⟨caller, draft, hview⟩ := exists_running hc hbuilding
        rw [if_pos rfl]
        refine undergoes_of_some hview fun v' hv' => ?_
        have hbegun := (hrest (stored_beginReturn hc.stored k.id result)).2 v' hv'
        exact Option.some.inj (hbegun.symm.trans (view?_beginReturn hc hview result))
      · rw [if_neg hk]
        exact undergoes_of_passes hc.stored
          ((passes_beginReturn h c result (other_of_holds hc hbuilding hk)).trans hrest)

/-- The end of the connection is looked after. It cuts the connection when it begins it. -/
theorem undergoes_pollDisconnect {c : Connection} (hc : c.books.Stored) (h : Handle) (t : TaskId)
    (e : Error) (stage : DisconnectStage) :
    Undergoes h (if c.Broke (c.pollDisconnect t e stage).2 then [.cut] else []) c
      (c.pollDisconnect t e stage).2 := by
  have hrest := (passes_endRule h).pollDisconnect c t e stage
  by_cases hends : stage = .unbegun ∧ c.isDown = false
  · obtain ⟨rfl, hup⟩ := hends
    have hbroke : c.Broke (c.pollDisconnect t e .unbegun).2 := by
      refine ⟨(c.isDown_eq_false_iff).1 hup, ?_⟩
      rw [(broken_pollDisconnect hup t e).1]
      exact Link.noConfusion
    rw [if_pos hbroke]
    intro v' hv'
    have hbegun := (hrest (stored_rule.breaks c e hc)).2 v' hv'
    exact Or.inl (view?_beginDisconnect hc hup e hbegun)
  · have hbefore : c.begunEnd e stage = c := by
      cases stage with
      | unbegun =>
          have hdown : c.isDown = true := by simpa using hends
          simp [begunEnd, beginDisconnect, hdown]
      | aborting send => rfl
      | shuttingDown gate => rfl
    have hstands := c.stands_pollDisconnect t e stage fun hstage => by simpa [hstage] using hends
    rw [if_neg (not_broke_of_stands hstands)]
    rw [hbefore] at hrest
    exact undergoes_of_passes hc hrest

theorem books_beforeEnd (c : Connection) (work : Work) : (c.beforeEnd work).books = c.books := by
  unfold beforeEnd
  split <;> rfl

theorem broke_congr {c c' d d' : Connection} (h : d.link = c.link) (h' : d'.link = c'.link) :
    d.Broke d' ↔ c.Broke c' := by
  unfold Broke
  rw [h, h']

/-- What is reported of an id in use before the connection ends is not seen. -/
theorem undergoes_beforeEnd {c c' : Connection} (hc : c.books.Stored) {h : Handle} {ds : List Deed}
    {work : Work} (hturn : Undergoes h ds (c.beforeEnd work) c') : Undergoes h ds c c' := by
  have hpasses : Passes h c (c.beforeEnd work) := passes_quiet h (c.books_beforeEnd work)
  have hborn : (c.beforeEnd work).nextCall = c.nextCall ∧
      (c.beforeEnd work).reservation h.id = c.reservation h.id := by
    unfold beforeEnd
    split <;> exact ⟨rfl, rfl⟩
  intro v' hv'
  rcases hturn v' hv' with ⟨v, hv, rfl⟩ | ⟨hcall, rfl⟩
  · exact Or.inl ⟨v, (hpasses hc).2 v hv, rfl⟩
  · exact Or.inr ⟨hcall.trans hborn.1, congrArg _ hborn.2⟩

/-- A task that was not told to cancel is looked after. -/
theorem undergoes_run {c : Connection} (hc : Reachable c) (h : Handle) {t : TaskId} {work : Work}
    {guard : Option Token} (hget : c.tasks.get? t = some ⟨work, guard⟩) :
    Undergoes h (match work.completion? h with
      | some result => [.complete c.isDown result]
      | none => if c.Broke (c.run t work).2 then [.cut] else []) c (c.run t work).2 := by
  cases c.runs t work with
  | @completes k stage run left =>
      have hturn := undergoes_pollReturn hc h hget
      have hnot := not_broke_of_stands (c.stands_pollReturn t k stage)
      rw [run, if_neg hnot]
      cases hcompletes : (Work.sendReturn k stage).completion? h <;> simpa [hcompletes] using hturn
  | @admits id token free run =>
      have hnot := not_broke_of_stands (c.stands_newAnswer id token)
      simp only [run, Work.completion?, if_neg hnot]
      exact undergoes_newAnswer hc.stored h id token
  | @refuses id token stays run =>
      have hnot : ¬ c.Broke (c.report (.idReused id)) := fun hbroke => hbroke.2 hbroke.1
      simp only [run, Work.completion?, if_neg hnot]
      exact undergoes_of_passes hc.stored (passes_quiet h rfl)
  | @ends work e stage goes run left halts =>
      have hbefore := c.books_beforeEnd work
      have hlink : (c.beforeEnd work).link = c.link := congrArg Books.link hbefore
      have hidle : work.completion? h = none := by
        cases work with
        | sendReturn k stage => exact absurd goes (by simp [endsBy, Work.ending?])
        | accept stage => rfl
        | disconnect x stage => rfl
      simp only [run, hidle, ← broke_congr hlink rfl]
      exact undergoes_beforeEnd hc.stored (undergoes_pollDisconnect (hbefore ▸ hc.stored) h t e stage)

/-- A task is looked after. -/
theorem undergoes_poll {c : Connection} (hc : Reachable c) (h : Handle) (t : TaskId) :
    Undergoes h (deeds h c (.poll t)) c (c.step (.poll t)).2 := by
  cases hget : c.tasks.get? t with
  | none =>
      have hstay : (c.step (.poll t)).2 = c := by simp [step, poll, hget]
      rw [hstay]
      simp only [deeds, hget]
      exact undergoes_of_passes hc.stored (passes_quiet h rfl)
  | some task =>
      cases hcancel : task.guard.any c.isCanceled with
      | true =>
          have hdropped := undergoes_dropTask hc h hget
          have hstands : c.Stands (c.dropTask t) :=
            stands_idleRule.dropTask ⟨fun _ _ => trivial, fun _ _ _ _ _ => trivial⟩ t
          have hnot := not_broke_of_stands hstands
          rw [step_poll_of_canceled hget hcancel]
          simp only [deeds, hget, hcancel, if_true, step_poll_of_canceled hget hcancel, if_neg hnot]
          cases hcompletes : task.work.completion? h <;> simpa [hcompletes] using hdropped
      | false =>
          obtain ⟨-, ts, heq⟩ := step_poll_of_live hget hcancel
          have hbroke : c.Broke (c.step (.poll t)).2 ↔ c.Broke (c.run t task.work).2 :=
            broke_congr rfl (by rw [heq])
          simp only [deeds, hget, hcancel, Bool.false_eq_true, if_false, hbroke]
          -- that the step notes how far the task has come is not seen
          rw [heq]
          exact undergoes_run hc h hget

/-- What is shown of a call after a step comes from what was shown before, by what the action does to the
    call. A call that comes in shows the return that is reserved for it, and no receiver. -/
theorem view?_step {c : Connection} (hc : Reachable c) (h : Handle) (action : Action) :
    Undergoes h (deeds h c action) c (c.step action).2 := by
  have hpassed : ∀ {c' : Connection}, Passes h c c' → Undergoes h [] c c' := undergoes_of_passes hc.stored
  -- what goes through a handle that does not stand alone is refused
  have hrefused : ∀ {k : Handle}, c.holds k ≠ true → ∀ d : Deed,
      Undergoes h (if k = h ∧ c.holds k = true then [d] else []) c c := by
    intro k hfree d
    rw [if_neg fun both => hfree both.2]
    exact hpassed (passes_quiet h rfl)
  cases action with
  | newAnswer id token => exact undergoes_newAnswer hc.stored h id token
  | accept id token => exact hpassed (passes_works h rfl rfl)
  | disconnect e => exact hpassed (passes_works h rfl rfl)
  | poll t => exact undergoes_poll hc h t
  | finish id releaseCaps => exact hpassed (passes_finish h c id releaseCaps)
  | allocateResults k size =>
      by_cases hheld : c.holds k = true
      · have hrevised := c.allocateResults_eq_revise k.id size
        have hturn := undergoes_revise hc h hheld (d := .allocate size)
          (fun caller draft => rfl) fun hs => hrevised ▸ stored_allocateResults hs k.id size
        rw [← hrevised] at hturn
        rw [step_allocateResults_snd, if_pos hheld]
        exact hturn
      · rw [step_allocateResults_snd, if_neg hheld]
        exact hrefused hheld (.allocate size)
  | setBootstrap k cap =>
      by_cases hheld : c.holds k = true
      · have hrevised := c.setBootstrap_eq_revise k.id cap
        have hturn := undergoes_revise hc h hheld (d := .boot cap)
          (fun caller draft => rfl) fun hs => hrevised ▸ stored_setBootstrap hs k.id cap
        rw [← hrevised] at hturn
        rw [step_setBootstrap_snd, if_pos hheld]
        exact hturn
      · rw [step_setBootstrap_snd, if_neg hheld]
        exact hrefused hheld (.boot cap)
  | edit ref change =>
      have hwrite := c.view?_edit h ref change
      have hturn : Undergoes h (deeds h c (.edit ref change)) c
          { c with messages := (c.messages.edit ref change).2 } := by
        intro v' hv'
        obtain ⟨v, hv, rfl⟩ := Option.map_eq_some_iff.1 (hwrite.symm.trans hv')
        refine Or.inl ⟨v, hv, ?_⟩
        simp only [deeds]
        split <;> rfl
      rw [step_edit_snd]
      exact hturn
  | sendReturn k result guard =>
      simp only [step]
      split
      · exact hpassed (passes_works h rfl rfl)
      · exact hpassed (passes_quiet h rfl)
  | dropHandle k =>
      by_cases hheld : c.holds k = true
      · simp only [step, deeds, hheld, if_true, and_true]
        exact undergoes_cancelReturn hc h (holds_executor hheld) ⟨rfl, rfl⟩
      · simp only [step, if_neg hheld]
        exact hrefused hheld .giveUp
  | newCaller name mode =>
      simp only [step]
      split <;> exact hpassed (passes_quiet h rfl)
  | setPipeline id name =>
      cases hin : c.callers.contains name with
      | false =>
          simp only [step, deeds, hin, Bool.false_eq_true, and_false, if_false]
          exact hpassed (passes_quiet h rfl)
      | true =>
          simp only [step, deeds, hin, if_true, and_true]
          intro v' hv'
          obtain ⟨v, hv, rfl⟩ := Option.map_eq_some_iff.1 ((c.view?_setPipeline h id name).symm.trans hv')
          refine Or.inl ⟨v, hv, ?_⟩
          by_cases hid : id = h.id <;> simp [hv, hid]
  | forward id call =>
      have hquiet : Passes h c (c.forward id call).2 := passes_quiet h (c.books_forward id call)
      rw [step_forward_snd]
      exact hpassed hquiet
  | acknowledge name count =>
      simp only [step]
      split
      · exact hpassed (passes_quiet h rfl)
      · exact hpassed (passes_quiet h (books_acknowledgeHeld c name _))
  | dropTask t =>
      cases hget : c.tasks.get? t with
      | none =>
          simp only [step, deeds, Table.contains, hget]
          exact hpassed (passes_quiet h rfl)
      | some task =>
          have hdropped := undergoes_dropTask hc h hget
          rw [step_dropTask_of_get? hget]
          simp only [deeds, hget, Option.bind_some]
          cases hcompletes : task.work.completion? h <;> simpa [hcompletes] using hdropped
  | cancel token => exact hpassed (passes_quiet h rfl)
  | configure setting => exact hpassed (passes_quiet h rfl)
  | gateSend => exact hpassed (passes_quiet h rfl)
  | gateShutdown => exact hpassed (passes_quiet h rfl)
  | openGate g => exact hpassed (passes_quiet h rfl)
  | takeSent => exact hpassed (passes_quiet h rfl)

/-! ## Whole runs -/

/-- What is shown of a call after a run comes from what was shown before, by what was done to the call since,
    one deed after the other. -/
theorem view?_after {c : Connection} (hc : Reachable c) {h : Handle} (hold : h.call < c.nextCall)
    (actions : List Action) {v' : View} (hview : (c.after actions).view? h = some v') :
    ∃ v, c.view? h = some v ∧ v' = (along (deeds h) c actions).foldl View.after v := by
  induction actions generalizing c with
  | nil => exact ⟨v', hview, rfl⟩
  | cons action rest ih =>
      have hnext : h.call < (c.step action).2.nextCall :=
        Nat.lt_of_lt_of_le hold (hc.lifeStep action).nextCall_le
      obtain ⟨u, hu, rfl⟩ := ih (.step action hc) hnext hview
      rcases view?_step hc h action u hu with ⟨v, hv, rfl⟩ | ⟨hnew, -⟩
      · exact ⟨v, hv, by rw [along, List.foldl_append]⟩
      · exact absurd hnew (Nat.ne_of_lt hold)

/-- A call that has just come in shows the return that was reserved for it, and no receiver. -/
theorem view?_of_new {c : Connection} (hc : Reachable c) {h : Handle} (hnew : c.nextCall ≤ h.call)
    {action : Action} {v : View} (hview : (c.step action).2.view? h = some v) :
    v = .running none (c.reservation h.id) := by
  rcases view?_step hc h action v hview with ⟨u, hu, -⟩ | ⟨-, hborn⟩
  · obtain ⟨a, ha, hcall, -⟩ := (c.view?_eq_some_iff h u).1 hu
    exact absurd (hc.call_lt ha) (Nat.not_lt_of_le (hcall ▸ hnew))
  · exact hborn

end Callee.Connection
