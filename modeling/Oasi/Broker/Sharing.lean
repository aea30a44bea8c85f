import Oasi.Broker.Statements

/-! # The discipline of handles that share a ledger

Under any interleaving, with errors of the environment anywhere, every action
keeps the committed tables at one phase of the attempt, whose dispatch count is
the number of committed consumptions. A call of `consume()` returns normally
only after its own commit, and no call leaves a transaction open.
-/

namespace Oasi.Broker

namespace World

/-- What all handles keep together. -/
structure Sound (world : World) : Prop where
  phase : ∃ phase, world.Holds phase ∧ world.committers.length = phase.dispatchCount
  writer : world.WriterExtends
  consumed : ∀ handle, world.consumers.count handle ≤ world.committers.count handle
  applied : ∀ handle, world.appliers.count handle ≤ world.consumers.count handle

/-- What other handles leave alone. -/
structure Leaves (handle : Handle) (before after : World) : Prop where
  writer : ∀ pending, before.writer = some (handle, pending) →
    after.writer = before.writer ∧ after.database = before.database
  idle : (∀ pending, before.writer ≠ some (handle, pending)) →
    ∀ pending, after.writer ≠ some (handle, pending)
  grows : before.Grows after
  committers : after.committers.count handle = before.committers.count handle
  consumers : after.consumers.count handle = before.consumers.count handle
  appliers : after.appliers.count handle = before.appliers.count handle

theorem Leaves.refl (handle : Handle) (world : World) : Leaves handle world world :=
  ⟨fun _ _ => ⟨rfl, rfl⟩, id, grows_of_database rfl, rfl, rfl, rfl⟩

theorem Leaves.trans {handle : Handle} {first second third : World}
    (hfirst : Leaves handle first second) (hsecond : Leaves handle second third) :
    Leaves handle first third := by
  constructor
  · intro pending h
    obtain ⟨hwriter, hdatabase⟩ := hfirst.writer pending h
    obtain ⟨hwriterNext, hdatabaseNext⟩ := hsecond.writer pending (hwriter.trans h)
    exact ⟨hwriterNext.trans hwriter, hdatabaseNext.trans hdatabase⟩
  · exact hsecond.idle ∘ hfirst.idle
  · exact hfirst.grows.trans hsecond.grows
  · exact hsecond.committers.trans hfirst.committers
  · exact hsecond.consumers.trans hfirst.consumers
  · exact hsecond.appliers.trans hfirst.appliers

end World

/-- Handles that share a ledger, with errors of the environment. -/
def sharing (image : Database → Bytes) : Interference Handle World Action Reply where
  Performs := Acts image
  Invariant := World.Sound
  Rely := World.Leaves
  rely_refl := World.Leaves.refl
  rely_trans := World.Leaves.trans

section Consumption

variable {image : Database → Bytes} {handle : Handle} {before after : World}

/-- The history of one handle is written by that handle. -/
theorem count_committers {action : Action} {reply : Reply action} {other : Handle}
    (h : Acts image handle before action reply after) (hother : other ≠ handle) :
    after.committers.count other = before.committers.count other := by
  rw [World.committers, World.committers, h.history, List.filterMap_cons]
  split
  · rfl
  next owner howner =>
    have hhandle : owner = handle := by
      split at howner
      next heq =>
        injection heq with heq
        split at howner
        · cases howner
          exact heq.symm
        · cases howner
      · cases howner
    rw [List.count_cons_of_ne fun heq => hother (heq.symm.trans hhandle)]

/-- What an action of one handle leaves to another one. -/
theorem leaves_of_acts {action : Action} {reply : Reply action} {other : Handle}
    (h : Acts image handle before action reply after) (hwriter : before.WriterExtends)
    (hother : other ≠ handle) : World.Leaves other before after := by
  obtain ⟨hothers, hgrows, _⟩ := h.coexists hwriter
  constructor
  · intro pending hpending
    exact hothers other pending hother hpending
  · intro hidle pending hpending
    rcases h.writer hpending with ⟨hhandle, _⟩ | ⟨current, hcurrent⟩
    · exact hother hhandle
    · exact hidle current hcurrent
  · exact hgrows
  · exact count_committers h hother
  · rw [h.consumers]
  · rw [h.appliers]

/-- An action that commits nothing and keeps the rows keeps everything. -/
theorem keeps_of_rows {action : Action} {reply : Reply action}
    (h : Acts image handle before action reply after)
    (hcommitters : after.committers = before.committers)
    (hrows : SameRows before after) (hsound : before.Sound) :
    (sharing image).Keeps handle before after := by
  obtain ⟨phase, hholds, hcount⟩ := hsound.phase
  constructor
  · constructor
    · exact ⟨phase, hholds.of_rows hrows.attempts hrows.events, by rw [hcommitters, hcount]⟩
    · exact (h.coexists hsound.writer).writer
    · intro other
      rw [h.consumers, hcommitters]
      exact hsound.consumed other
    · intro other
      rw [h.consumers, h.appliers]
      exact hsound.applied other
  · intro other hother
    exact leaves_of_acts h hsound.writer hother

/-- An action that writes no rows keeps the counts and the phase. -/
theorem keeps_of_reads {action : Action} {reply : Reply action}
    (h : Acts image handle before action reply after) (haction : action.writes = false)
    (hsound : before.Sound) : (sharing image).Keeps handle before after := by
  apply keeps_of_rows h (h.committers _) (h.sameRows haction) hsound
  rintro rfl
  cases haction

/-- Statements inside a transaction may rely on what handles share. -/
theorem hosts_sharing : Hosts image (sharing image) handle True := by
  constructor
  · intro before action reply after h
    exact .inr ⟨trivial, h⟩
  · intro before after committed pending hlater hopen
    obtain ⟨hwriter, hdatabase⟩ := hlater.rely.writer pending hopen.writer
    exact ⟨hdatabase.trans hopen.database, hwriter.trans hopen.writer⟩
  · intro before action reply after committed pending written hsound hopen haction h hafter
    apply keeps_of_rows h
    · apply h.committers
      rintro rfl
      cases haction
    · exact sameRows_of_database (hafter.database.trans hopen.database.symm)
    · exact hsound

/-! ## Handles without a transaction -/

/-- The handle holds no transaction. -/
def World.IdleAt (world : World) (handle : Handle) : Prop :=
  ∀ pending, world.writer ≠ some (handle, pending)

/-- Outside a transaction a handle sees the committed file. -/
theorem view_of_idle {world : World} (hidle : world.IdleAt handle) :
    world.view handle = world.database.elim (.error .fileNotFound) .ok := by
  unfold World.view
  cases hheld : world.writer with
  | none => rfl
  | some entry =>
      obtain ⟨holder, pending⟩ := entry
      exact if_neg fun heq : holder = handle => hidle pending (heq ▸ hheld)

/-- Actions that neither begin a transaction nor change rows. -/
def Action.quiet (action : Action) : Prop := action.writes = false ∧ action ≠ .beginImmediate

/-- A handle without a transaction gets one by `BEGIN IMMEDIATE` only. -/
theorem idle_of_acts {action : Action} {reply : Reply action} (hquiet : action.quiet)
    (hidle : before.IdleAt handle) (h : Acts image handle before action reply after) :
    after.IdleAt handle := by
  intro pending hpending
  rcases h.writer hpending with ⟨_, haction⟩ | ⟨current, hcurrent⟩
  · exact hquiet.2 haction
  · exact hidle current hcurrent

/-! ## The transaction -/

/-- A transaction begins with a copy of the file. -/
theorem acts_begin {reply : Reply .beginImmediate}
    (h : Acts image handle before .beginImmediate reply after) (hreply : reply = .ok ()) :
    ∃ database, before.database = some database ∧ after.Open handle database database := by
  subst hreply
  cases h with
  | performed hperform =>
      rcases begin_cases image handle before with
        ⟨_, database, hdatabase, hbegun⟩ | ⟨raised, hfailed⟩
      · cases hbegun.symm.trans hperform
        exact ⟨database, hdatabase, hdatabase, rfl⟩
      · cases hfailed.symm.trans hperform

/-- A transaction that could not begin is not open. -/
theorem acts_begin_error {raised : Raised} (hidle : before.IdleAt handle)
    (h : Acts image handle before .beginImmediate (.error raised) after) :
    after.IdleAt handle := by
  cases h with
  | performed hperform =>
      rcases begin_cases image handle before with ⟨_, database, _, hbegun⟩ | ⟨_, hfailed⟩
      · cases hbegun.symm.trans hperform
      · cases hfailed.symm.trans hperform
        exact hidle
  | faulted hdamages _ =>
      intro pending hpending
      exact hidle pending ((sameStore_of_damages hdamages).writer ▸ hpending)

/-- A commit publishes what the transaction sees, or fails and leaves it open. -/
theorem acts_commit {reply : Reply .commit} {committed pending : Database}
    (hopen : before.Open handle committed pending)
    (h : Acts image handle before .commit reply after) :
    (reply = .ok () ∧ after.writer = none ∧
      after.database = some { pending with changes := pending.changes + 1 }) ∨
    (∃ raised, reply = .error raised) ∧ after.Open handle committed pending := by
  cases h with
  | performed hperform =>
      simp only [perform, hopen.writer, if_true] at hperform
      cases hperform
      exact .inl ⟨rfl, rfl, rfl⟩
  | faulted hdamages _ =>
      exact .inr ⟨⟨.fault, rfl⟩, open_record (open_of_damages hopen hdamages)⟩

/-- The committed tables hold what the database of the world holds. -/
theorem holds_of_database {world : World} {database : Database} {phase : Phase} {changes : Nat}
    (hdatabase : world.database = some { database with changes := changes }) :
    database.Holds phase ↔ world.Holds phase := by
  constructor
  · intro hholds
    constructor
    · rw [World.attemptRows, hdatabase]
      exact hholds.attempts
    · rw [World.eventRows, hdatabase]
      exact hholds.events
  · intro hholds
    have hattempts := hholds.attempts
    have hevents := hholds.events
    rw [World.attemptRows, hdatabase] at hattempts
    rw [World.eventRows, hdatabase] at hevents
    exact ⟨hattempts, hevents⟩

/-- A row says CONSUMED in that phase and in no other. -/
theorem any_consumed {phase : Phase} :
    phase.row?.toList.any (fun row => row.current && row.state == .text "CONSUMED") =
      decide (phase = .consumed) := by
  cases phase <;> simp [Phase.row?, Phase.state]

/-- What a commit adds to the history. -/
theorem committers_of_commit {pending : Database} {next : Phase}
    (h : Acts image handle before .commit (.ok ()) after)
    (hdatabase : after.database = some { pending with changes := pending.changes + 1 })
    (hholds : pending.Holds next) :
    after.committers = if next = .consumed then handle :: before.committers
      else before.committers := by
  rw [World.committers, h.history, hdatabase, List.filterMap_cons]
  have hrows : Database.attemptRows { pending with changes := pending.changes + 1 } =
      next.row?.toList := hholds.attempts
  dsimp only
  rw [hrows, any_consumed]
  by_cases hnext : next = .consumed
  · simp only [hnext, decide_true, if_true, World.committers]
  · simp only [hnext, decide_false, Bool.false_eq_true, if_false, World.committers]

/-- A commit of the next phase keeps the counts and the phase together. -/
theorem keeps_of_commit {committed pending : Database} {operation : Operation}
    {phase next : Phase} (h : Acts image handle before .commit (.ok ()) after)
    (hsound : before.Sound) (hopen : before.Open handle committed pending)
    (hcommitted : committed.Holds phase) (hnext : operation.next phase = some next)
    (hpending : pending.Holds next)
    (hdatabase : after.database = some { pending with changes := pending.changes + 1 }) :
    (sharing image).Keeps handle before after := by
  have hcommitters := committers_of_commit h hdatabase hpending
  obtain ⟨current, hcurrent, hcount⟩ := hsound.phase
  have hcurrentCount : current.dispatchCount = phase.dispatchCount := by
    have hrows := hcurrent.attempts
    rw [World.attemptRows, hopen.database, Option.elim, hcommitted.attempts] at hrows
    cases phase <;> cases current <;>
      simp_all [Phase.row?, Phase.state, Phase.dispatchCount]
  constructor
  · constructor
    · refine ⟨next, (holds_of_database hdatabase).mp hpending, ?_⟩
      rw [hcommitters, dispatchCount_next hnext, ← hcurrentCount, ← hcount]
      by_cases hconsumed : next = .consumed
      · rw [if_pos hconsumed, if_pos hconsumed, List.length_cons]
      · rw [if_neg hconsumed, if_neg hconsumed, Nat.add_zero]
    · exact (h.coexists hsound.writer).writer
    · intro other
      rw [h.consumers, hcommitters]
      apply Nat.le_trans (hsound.consumed other)
      by_cases hconsumed : next = .consumed
      · rw [if_pos hconsumed]
        exact List.count_le_count_cons
      · apply Nat.le_of_eq
        rw [if_neg hconsumed]
    · intro other
      rw [h.consumers, h.appliers]
      exact hsound.applied other
  · intro other hother
    exact leaves_of_acts h hsound.writer hother

/-- A seal does not touch the database. -/
theorem seal_untouched : (Ledger._seal).run.Uses fun action => action.touches = false := by
  apply seal_uses.imp
  intro action haction
  cases action <;> simp_all [Action.seals, Action.touches]

/-- The handle has committed one consumption more than its calls have reported. -/
def World.OwesConsume (world : World) (handle : Handle) : Prop :=
  world.consumers.count handle + 1 ≤ world.committers.count handle

/-- A method other than `consume` or one that raises promises nothing. -/
def Reports (handle : Handle) (operation : Operation) (outcome : Except Raised Unit)
    (world : World) : Prop :=
  operation = .consume → outcome = .ok () → world.OwesConsume handle

/-- What a handle owes is not paid by others. -/
theorem owes_stable {operation : Operation} (hlater : (sharing image).Later handle before after)
    (howes : operation = .consume → before.OwesConsume handle) :
    operation = .consume → after.OwesConsume handle := by
  intro hoperation
  have hbefore := howes hoperation
  rw [World.OwesConsume] at hbefore ⊢
  rw [hlater.rely.committers, hlater.rely.consumers]
  exact hbefore

/-- What a method ends with. -/
def Closes (handle : Handle) (operation : Operation) (outcome : Except Raised Unit)
    (world : World) : Prop :=
  Reports handle operation outcome world ∧ world.IdleAt handle

/-- After its commit a handle holds no transaction and owes its report. -/
def Committed (handle : Handle) (operation : Operation) (world : World) : Prop :=
  (operation = .consume → world.OwesConsume handle) ∧ world.IdleAt handle

/-- What follows a commit outlasts the steps of other handles. -/
theorem committed_later {operation : Operation}
    (hlater : (sharing image).Later handle before after)
    (hcommitted : Committed handle operation before) : Committed handle operation after :=
  ⟨owes_stable hlater hcommitted.1, hlater.rely.idle hcommitted.2⟩

/-- A seal keeps the counts and the phase. -/
theorem safe_seal {operation : Operation} {world : World}
    (hcommitted : Committed handle operation world) :
    (sharing image).Safe handle (fun _ after => Committed handle operation after)
      (Ledger._seal).run world := by
  apply Interference.safe_of_uses _ _ seal_untouched hcommitted
  · intro before after hlater hbefore
    exact committed_later hlater hbefore
  · intro before action reply after haction hsound hbefore h
    refine ⟨keeps_of_reads h (writes_of_touches haction) hsound, ?_, ?_⟩
    · intro hoperation
      have howed := hbefore.1 hoperation
      rw [World.OwesConsume] at howed ⊢
      rw [h.consumers, h.committers (by rintro rfl; cases haction)]
      exact howed
    · apply idle_of_acts ⟨writes_of_touches haction, _⟩ hbefore.2 h
      rintro rfl
      cases haction

/-- Behind a rollback no transaction of the handle is open. -/
theorem acts_rollback {reply : Reply .rollback}
    (h : Acts image handle before .rollback reply after) : after.IdleAt handle := by
  cases h with
  | performed hperform =>
      rcases rollback_cases image handle before with
        ⟨_, _, hdone⟩ | ⟨hidle, raised, hfailed⟩
      · cases hdone.symm.trans hperform
        intro pending hpending
        cases hpending
      · cases hfailed.symm.trans hperform
        exact hidle
  | faulted _ haction => exact absurd rfl haction

/-- The `except` branch of a method. -/
theorem safe_rollback {operation : Operation} {raised : Raised} {world : World} :
    (sharing image).Safe handle (Closes handle operation)
      (execute .rollback >>= fun _ => (throw raised : LedgerCall Unit)).run world := by
  apply Interference.safe_call_bind
  apply Interference.safe_execute
  intro middle hmiddle reply after h
  refine ⟨keeps_of_reads h rfl hmiddle.invariant, ?_⟩
  intro last hlast
  have hidle := hlast.rely.idle (acts_rollback h)
  cases reply with
  | ok value =>
      intro final hfinal
      exact ⟨(fun _ hok => by cases hok), hfinal.rely.idle hidle⟩
  | error failure =>
      intro final hfinal
      exact ⟨(fun _ hok => by cases hok), hfinal.rely.idle hidle⟩

/-- From an open transaction the statements, the commit and the seal keep the
shared invariant, and a `consume` that comes through has committed. -/
theorem safe_commit {operation : Operation} {statements : LedgerCall Unit} {world : World}
    {committed : Database} {phase : Phase} (hcarries : Carries image operation statements)
    (hopen : world.Open handle committed committed) (htables : committed.HasTables)
    (hcommitted : committed.Holds phase) :
    (sharing image).Safe handle (fun outcome after => outcome = .ok () →
      Committed handle operation after)
      (do statements; execute .commit; Ledger._seal : LedgerCall Unit).run world := by
  apply Interference.safe_call_bind
  apply Interference.Safe.imp (hcarries _ handle True hosts_sharing world committed phase hopen
    htables hcommitted)
  intro outcome written _ hwritten
  cases outcome with
  | error raised => exact fun last _ hok => by cases hok
  | ok value =>
      obtain ⟨pending, hpendingOpen, next, hnext, hpending⟩ := hwritten
      apply Interference.safe_call_bind
      apply Interference.safe_execute
      intro ready hready reply done hcommit
      have hreadyOpen := hosts_sharing.stays hready hpendingOpen
      rcases acts_commit hreadyOpen hcommit with
        ⟨rfl, hwriter, hdatabase⟩ | ⟨⟨raised, rfl⟩, hstill⟩
      · -- the commit has made the phase of the copy that of the file
        have hkeeps := keeps_of_commit hcommit hready.invariant hreadyOpen hcommitted hnext
          hpending hdatabase
        refine ⟨hkeeps, ?_⟩
        intro last hlast
        have hdone : Committed handle operation done := by
          constructor
          · rintro rfl
            have hconsumed : next = .consumed := by
              cases phase <;> simp_all [Operation.next]
            rw [World.OwesConsume, hcommit.consumers,
              committers_of_commit hcommit hdatabase hpending, if_pos hconsumed,
              List.count_cons_self]
            exact Nat.succ_le_succ (hready.invariant.consumed handle)
          · intro current hcurrent
            rw [hwriter] at hcurrent
            cases hcurrent
        apply Interference.Safe.imp (safe_seal (committed_later hlast hdone))
        intro outcome after _ hafter _
        exact hafter
      · -- a commit that raises has changed no row, and the call raises as well
        refine ⟨keeps_of_rows hcommit ?_ ?_ hready.invariant, ?_⟩
        · rw [World.committers, hcommit.history]
          rfl
        · exact sameRows_of_database (hstill.database.trans hreadyOpen.database.symm)
        · exact fun last _ final _ hok => by cases hok

/-- A method keeps the shared invariant at every action, and `consume` returns
normally only after its commit. -/
theorem safe_method {operation : Operation} (hmethod : operation ≠ .construct) {world : World}
    (hidle : world.IdleAt handle) (htables : world.HasTables) :
    (sharing image).Safe handle (Closes handle operation) operation.call.run world := by
  obtain ⟨statements, hcall, hcarries⟩ := @exists_statements image operation hmethod
  rw [hcall]
  apply Interference.safe_call_bind
  apply Interference.safe_execute
  intro middle hmiddle reply after hbegin
  refine ⟨keeps_of_reads hbegin rfl hmiddle.invariant, ?_⟩
  intro opened hopened
  cases reply with
  | error raised =>
      intro last hlast
      refine ⟨(fun _ hok => by cases hok), ?_⟩
      -- BEGIN raised: there is no transaction to roll back, now or later
      apply hlast.rely.idle
      apply hopened.rely.idle
      exact acts_begin_error (hmiddle.rely.idle hidle) hbegin
  | ok value =>
      -- the tables of the copy are those that everybody sees
      obtain ⟨committed, hdatabase, hopen⟩ := acts_begin hbegin rfl
      have htables : committed.HasTables := by
        obtain ⟨current, hcurrent, htables⟩ := htables.grow hmiddle.rely.grows
        rw [hdatabase, Option.some.injEq] at hcurrent
        exact hcurrent ▸ htables
      have hopen := hosts_sharing.stays hopened hopen
      obtain ⟨phase, hholds, _⟩ := hopened.invariant.phase
      have hcommitted : committed.Holds phase := by
        have hdatabase : opened.database = some { committed with changes := committed.changes } :=
          hopen.database
        exact (holds_of_database hdatabase).mpr hholds
      apply Interference.safe_tryCatch
      apply Interference.Safe.imp (safe_commit hcarries hopen htables hcommitted)
      intro outcome after _ hafter
      cases outcome with
      | error raised => exact safe_rollback
      | ok value =>
          intro last hlast
          have hlastCommitted := committed_later hlast (hafter rfl)
          exact ⟨fun hoperation _ => hlastCommitted.1 hoperation, hlastCommitted.2⟩

/-! ## The constructor -/

/-- A call that neither begins a transaction nor writes rows is safe. -/
theorem safe_quiet {Value : Type} {call : LedgerCall Value} {world : World}
    (huses : call.run.Uses Action.quiet) (hidle : world.IdleAt handle) :
    (sharing image).Safe handle (fun _ after => after.IdleAt handle) call.run world := by
  apply Interference.safe_of_uses _ _ huses
  · exact hidle
  · intro before after hlater hbefore
    exact hlater.rely.idle hbefore
  · intro before action reply after hquiet hsound hbefore h
    exact ⟨keeps_of_reads h hquiet.1 hsound, idle_of_acts hquiet hbefore h⟩

/-- What a constructor ends with. -/
def Builds (outcome : Except Raised Unit) (world : World) : Prop :=
  outcome = .ok () → world.HasTables

/-- A call may follow one that neither begins a transaction nor writes rows. -/
theorem safe_quiet_bind {Value : Type} {call : LedgerCall Value}
    {rest : Value → LedgerCall Unit} {world : World} (huses : call.run.Uses Action.quiet)
    (hidle : world.IdleAt handle)
    (hrest : ∀ value after, after.IdleAt handle →
      (sharing image).Safe handle Builds (rest value).run after) :
    (sharing image).Safe handle Builds (call >>= rest).run world := by
  apply Interference.safe_call_bind
  apply (safe_quiet huses hidle).imp
  intro outcome after _ hafter
  cases outcome with
  | ok value => exact hrest value after hafter
  | error raised => exact fun last _ hok => by cases hok

/-- A table that `CREATE TABLE` was asked for is there. -/
theorem create_ok {present : Database → Bool} {statement : Database → Database} {world made : World}
    (hidle : world.IdleAt handle)
    (hpresent : ∀ database changes,
      present { statement database with changes := changes } = true)
    (h : world.create handle present statement = (.ok (), made)) :
    ∃ database, made.database = some database ∧ present database = true := by
  rcases world.create_cases handle present statement with
    ⟨database, hview, hthere, hkept⟩ | ⟨_, _, _, hmade⟩ | ⟨_, hfailed⟩
  · rw [hkept] at h
    cases h
    rw [view_of_idle hidle] at hview
    cases hdatabase : world.database with
    | none =>
        rw [hdatabase] at hview
        cases hview
    | some current =>
        rw [hdatabase] at hview
        cases hview
        exact ⟨database, rfl, hthere⟩
  · rw [hmade] at h
    rcases world.write_cases handle (fun database => .ok (statement database)) with
      ⟨pending, _, hheld, _, _⟩ | ⟨_, database, _, _, hwritten, hdone⟩ | ⟨_, hfailed⟩
    · exact absurd hheld (hidle pending)
    · rw [hdone] at h
      cases h
      cases hwritten
      exact ⟨_, rfl, hpresent database _⟩
    · rw [hfailed] at h
      cases h
  · rw [hfailed] at h
    cases h

/-- The file has an attempts table. -/
def World.HasAttempts (world : World) : Prop :=
  ∃ database, world.database = some database ∧ database.attempts.isSome

/-- A file that grows keeps its attempts table. -/
theorem World.HasAttempts.grow {before after : World} (hattempts : before.HasAttempts)
    (hgrows : before.Grows after) : after.HasAttempts := by
  obtain ⟨database, hdatabase, htable⟩ := hattempts
  obtain ⟨grown, hgrown, hextends⟩ := hgrows database hdatabase
  exact ⟨grown, hgrown, hextends.attempts htable⟩

/-- The attempts table is there behind its creation. -/
theorem acts_createAttempts {reply : Reply .createAttempts} (hidle : before.IdleAt handle)
    (h : Acts image handle before .createAttempts reply after) (hreply : reply = .ok ()) :
    after.HasAttempts := by
  subst hreply
  cases h with
  | @performed _ world hperform =>
      have hcreate : before.create handle (·.attempts.isSome)
          (fun database => { database with attempts := some [] }) = (.ok (), world) := hperform
      obtain ⟨database, hdatabase, htable⟩ := create_ok hidle (fun _ _ => rfl) hcreate
      exact ⟨database, hdatabase, htable⟩

/-- Both tables are there behind the creation of the second one. -/
theorem acts_createEvents {reply : Reply .createEvents} (hidle : before.IdleAt handle)
    (hattempts : before.HasAttempts) (hwriter : before.WriterExtends)
    (h : Acts image handle before .createEvents reply after) (hreply : reply = .ok ()) :
    after.HasTables := by
  obtain ⟨database, hdatabase, hattempts⟩ := hattempts.grow (h.coexists hwriter).grows
  subst hreply
  cases h with
  | @performed _ world hperform =>
      have hcreate : before.create handle (·.events.isSome)
          (fun database => { database with events := some [] }) = (.ok (), world) := hperform
      obtain ⟨created, hcreated, hevents⟩ := create_ok hidle (fun _ _ => rfl) hcreate
      have heq : some database = some created := hdatabase.symm.trans hcreated
      rw [Option.some.injEq] at heq
      exact ⟨created, hcreated, ⟨heq ▸ hattempts, hevents⟩⟩

/-- Calls that write no rows keep the tables. -/
theorem safe_tables {Value : Type} {call : LedgerCall Value} {world : World}
    (huses : call.run.Uses fun action => action.writes = false) (htables : world.HasTables) :
    (sharing image).Safe handle (fun _ after => after.HasTables) call.run world := by
  apply Interference.safe_of_uses _ _ huses htables
  · intro before after hlater hbefore
    exact hbefore.grow hlater.rely.grows
  · intro before action reply after haction hsound hbefore h
    exact ⟨keeps_of_reads h haction hsound, hbefore.grow (h.coexists hsound.writer).grows⟩

/-- The checks of the constructor neither begin a transaction nor write rows. -/
theorem quiet_of_checks {action : Action} (h : action.checks = true) : action.quiet := by
  cases action with
  | sealIsFile | readSeal | readDatabase => exact ⟨rfl, by simp⟩
  | _ => cases h

/-- A constructor that returns leaves both tables behind. -/
theorem safe_construct {world : World} (hidle : world.IdleAt handle) :
    (sharing image).Safe handle Builds (Ledger.construct).run world := by
  unfold Ledger.construct
  apply safe_quiet_bind (Call.uses_execute ⟨rfl, by simp⟩) hidle
  intro existed world hidle
  apply safe_quiet_bind (uses_runIf (checkSeal_uses.imp fun _ => quiet_of_checks)) hidle
  intro _ world hidle
  apply safe_quiet_bind (Call.uses_execute ⟨rfl, by simp⟩) hidle
  intro _ world hidle
  apply safe_quiet_bind (Call.uses_execute ⟨rfl, by simp⟩) hidle
  intro _ world hidle
  apply safe_quiet_bind (Call.uses_execute ⟨rfl, by simp⟩) hidle
  intro _ world hidle
  apply safe_quiet_bind (Call.uses_execute ⟨rfl, by simp⟩) hidle
  intro _ world hidle
  -- from here on the file may change
  apply Interference.safe_call_bind
  apply Interference.safe_execute
  intro middle hmiddle reply after hcreate
  refine ⟨keeps_of_reads hcreate rfl hmiddle.invariant, ?_⟩
  intro last hlast
  have hidle := hmiddle.rely.idle hidle
  have hidleAfter := hlast.rely.idle (idle_of_acts ⟨rfl, by simp⟩ hidle hcreate)
  cases reply with
  | error raised => exact fun final _ hok => by cases hok
  | ok value =>
      have hattempts := (acts_createAttempts hidle hcreate rfl).grow hlast.rely.grows
      apply Interference.safe_call_bind
      apply Interference.safe_execute
      intro ready hready reply made hevents
      refine ⟨keeps_of_reads hevents rfl hready.invariant, ?_⟩
      intro final hfinal
      cases reply with
      | error raised => exact fun final _ hok => by cases hok
      | ok value =>
          have htables := acts_createEvents (hready.rely.idle hidleAfter)
            (hattempts.grow hready.rely.grows) hready.invariant.writer hevents rfl
          have hseal := seal_untouched.imp fun action => writes_of_touches
          apply (safe_tables (uses_runIf hseal) (htables.grow hfinal.rely.grows)).imp
          intro outcome after _ hafter _
          exact hafter

/-- The constructor neither begins a transaction nor writes rows. -/
theorem construct_quiet : (Ledger.construct).run.Uses Action.quiet := by
  apply construct_uses.imp
  intro action haction
  cases action <;> simp_all [Action.constructs, Action.checks, Action.seals, Action.quiet,
    Action.writes]

/-! ## Between the calls -/

/-- What is recorded keeps the counts in their order. -/
theorem sound_of_happening {world : World} {happening : Happening} (hsound : world.Sound)
    (hcommitters : (world.record happening).committers = world.committers)
    (hconsumed : ∀ other, (world.record happening).consumers.count other ≤
      world.committers.count other)
    (happlied : ∀ other, (world.record happening).appliers.count other ≤
      (world.record happening).consumers.count other) : (world.record happening).Sound := by
  obtain ⟨phase, hholds, hcount⟩ := hsound.phase
  constructor
  · exact ⟨phase, ⟨hholds.attempts, hholds.events⟩, by rw [hcommitters, hcount]⟩
  · exact hsound.writer
  · intro other
    rw [hcommitters]
    exact hconsumed other
  · exact happlied

/-- What is recorded of one handle leaves the counts of another one. -/
theorem leaves_of_happening {world : World} {happening : Happening} {other : Handle}
    (hcommitters : (world.record happening).committers = world.committers)
    (hconsumers : (world.record happening).consumers.count other = world.consumers.count other)
    (happliers : (world.record happening).appliers.count other = world.appliers.count other) :
    World.Leaves other world (world.record happening) := by
  constructor
  · intro pending _
    exact ⟨rfl, rfl⟩
  · exact id
  · exact World.grows_of_database rfl
  · rw [hcommitters]
  · exact hconsumers
  · exact happliers

/-- A consumption is reported when `consume()` returns normally. -/
theorem consumers_returned (world : World) (operation : Operation)
    (outcome : Except Raised Unit) :
    (world.record (.returned handle operation outcome)).consumers =
      if operation = .consume ∧ outcome = .ok () then handle :: world.consumers
      else world.consumers := by
  rw [World.consumers, World.record, List.filterMap_cons]
  cases outcome with
  | error raised => cases operation <;> simp [World.consumers]
  | ok value => cases operation <;> simp [World.consumers]

/-- A call that returns as its discipline promises keeps the shared invariant. -/
theorem keeps_returned {world : World} {operation : Operation} {outcome : Except Raised Unit}
    (hsound : world.Sound) (hreports : Reports handle operation outcome world) :
    (sharing image).Keeps handle world (world.record (.returned handle operation outcome)) := by
  have hconsumers := @consumers_returned handle world operation outcome
  have hcount : ∀ other, world.consumers.count other ≤
      (world.record (.returned handle operation outcome)).consumers.count other := by
    intro other
    rw [hconsumers]
    split
    · exact List.count_le_count_cons
    · exact Nat.le_refl _
  constructor
  · apply sound_of_happening hsound rfl
    · intro other
      rw [hconsumers]
      split
      next hconsume =>
        by_cases hother : other = handle
        · subst hother
          rw [List.count_cons_self]
          exact hreports hconsume.1 hconsume.2
        · rw [List.count_cons_of_ne (Ne.symm hother)]
          exact hsound.consumed other
      · exact hsound.consumed other
    · intro other
      exact Nat.le_trans (hsound.applied other) (hcount other)
  · intro other hother
    apply leaves_of_happening rfl _ rfl
    rw [hconsumers]
    split
    · rw [List.count_cons_of_ne (Ne.symm hother)]
    · rfl

/-- A dispatcher that is permitted keeps the counts in their order. -/
theorem keeps_applied {world : World} (hsound : world.Sound)
    (hpermitted : world.appliers.count handle < world.consumers.count handle) :
    (sharing image).Keeps handle world (world.record (.applied handle)) := by
  have happliers : (world.record (.applied handle)).appliers = handle :: world.appliers := rfl
  constructor
  · apply sound_of_happening hsound rfl
    · exact hsound.consumed
    intro other
    rw [happliers]
    by_cases hother : other = handle
    · subst hother
      rw [List.count_cons_self]
      exact hpermitted
    · rw [List.count_cons_of_ne (Ne.symm hother)]
      exact hsound.applied other
  · intro other hother
    apply leaves_of_happening rfl rfl
    rw [happliers, List.count_cons_of_ne (Ne.symm hother)]

/-- A handle that ends gives up its transaction and nothing else. -/
theorem release_cases (world : World) (handle : Handle) :
    (∃ pending, world.writer = some (handle, pending)) ∧
        world.release handle = { world with writer := none } ∨
      world.IdleAt handle ∧ world.release handle = world := by
  unfold World.release
  cases hheld : world.writer with
  | none =>
      refine .inr ⟨?_, rfl⟩
      intro pending h
      rw [hheld] at h
      cases h
  | some entry =>
      obtain ⟨holder, pending⟩ := entry
      dsimp only
      by_cases hholder : holder = handle
      · rw [if_pos hholder]
        exact .inl ⟨⟨pending, by rw [hholder]⟩, rfl⟩
      · rw [if_neg hholder]
        refine .inr ⟨?_, rfl⟩
        intro current h
        rw [hheld, Option.some.injEq, Prod.mk.injEq] at h
        exact hholder h.1

/-- A handle that is lost gives up its transaction and nothing else. -/
theorem keeps_release {world : World} (hsound : world.Sound) :
    (sharing image).Keeps handle world (world.release handle) ∧
      (world.release handle).IdleAt handle := by
  rcases release_cases world handle with ⟨⟨pending, hheld⟩, hrelease⟩ | ⟨hidle, hrelease⟩
  · rw [hrelease]
    refine ⟨⟨?_, ?_⟩, ?_⟩
    · obtain ⟨phase, hholds, hcount⟩ := hsound.phase
      constructor
      · exact ⟨phase, ⟨hholds.attempts, hholds.events⟩, hcount⟩
      · intro _ _ h
        cases h
      · exact hsound.consumed
      · exact hsound.applied
    · intro other hother
      constructor
      · intro current hcurrent
        rw [hheld, Option.some.injEq, Prod.mk.injEq] at hcurrent
        exact absurd hcurrent.1.symm hother
      · intro _ current h
        cases h
      · exact World.grows_of_database rfl
      all_goals rfl
    · intro current h
      cases h
  · rw [hrelease]
    exact ⟨⟨hsound, fun other _ => World.Leaves.refl other world⟩, hidle⟩

end Consumption

/-- What a call ends with, whatever it raised. -/
def Ended (handle : Handle) (operation : Operation) (outcome : Except Raised Unit)
    (world : World) : Prop :=
  match operation with
  | .construct => Builds outcome world ∧ world.IdleAt handle
  | operation => world.HasTables ∧ Closes handle operation outcome world

/-- A method ends as the handle began it, on a ledger with both tables. -/
theorem ended_of_method {handle : Handle} {operation : Operation} {outcome : Except Raised Unit}
    {world : World} (hmethod : operation ≠ .construct) (htables : world.HasTables)
    (hcloses : Closes handle operation outcome world) :
    Ended handle operation outcome world := by
  cases operation with
  | construct => exact absurd rfl hmethod
  | _ => exact ⟨htables, hcloses⟩

/-- Every call is safe and ends well. -/
theorem ended_safe {image : Database → Bytes} {handle : Handle} {operation : Operation}
    {world : World} (hidle : world.IdleAt handle)
    (htables : operation ≠ .construct → world.HasTables) :
    (sharing image).Safe handle (Ended handle operation) operation.call.run world := by
  by_cases hoperation : operation = .construct
  · subst hoperation
    exact (safe_construct hidle).and (safe_quiet construct_quiet hidle)
  · have hsafe := @safe_method image handle operation hoperation world hidle (htables hoperation)
    apply Interference.Safe.imp (hsafe.frame _ _ (htables hoperation))
    · intro outcome after _ hended
      exact ended_of_method hoperation hended.2 hended.1
    · intro before after hlater htables
      exact htables.grow hlater.rely.grows
    · intro before action reply after hsound htables h
      exact htables.grow (h.coexists hsound.writer).grows

/-- What has ended owes its report. -/
theorem reports_of_ended {handle : Handle} {operation : Operation} {outcome : Except Raised Unit}
    {world : World} (hended : Ended handle operation outcome world) :
    Reports handle operation outcome world := by
  cases operation with
  | construct => exact fun heq => by cases heq
  | _ => exact hended.2.1

/-- The discipline of handles that share a ledger. -/
def discipline (image : Database → Bytes) : Discipline where
  toInterference := sharing image
  Rests := fun handle ready world => world.IdleAt handle ∧ (ready = true → world.HasTables)
  Returns := Ended
  rests_later := by
    intro handle ready before after hrests hlater
    exact ⟨hlater.rely.idle hrests.1, fun hready => (hrests.2 hready).grow hlater.rely.grows⟩
  starts := by
    intro handle ready world operation _ hrests hready
    apply ended_safe hrests.1
    intro hoperation
    cases ready with
    | true => exact hrests.2 rfl
    | false => exact absurd (hready.mp rfl) hoperation
  returns := by
    intro handle operation outcome world hsound hended
    refine ⟨keeps_returned hsound (reports_of_ended hended), ?_⟩
    cases operation with
    | construct =>
        refine ⟨hended.2, fun hready => ?_⟩
        cases outcome with
        | ok value => exact hended.1 rfl
        | error raised => cases hready
    | _ => exact ⟨hended.2.2, fun _ => hended.1⟩
  closes := by
    intro handle world hsound _
    obtain ⟨hkeeps, hidle⟩ := keeps_release hsound
    exact ⟨hkeeps, hidle, fun hready => by cases hready⟩
  applies := by
    intro handle world hsound hrests hpermitted
    exact ⟨keeps_applied hsound hpermitted, hrests⟩

end Oasi.Broker
