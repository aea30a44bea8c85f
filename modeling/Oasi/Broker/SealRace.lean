import Oasi.Broker.Recovery
import Oasi.Broker.Windows

/-! # Handles that seal at the same time

The lock of the database does not cover the seal. When a handle commits while
another one is between reading the file and replacing the seal, the other one
may put the digest of the old file over that of the new one. When no handle
does, every run without crashes and errors ends with the digest of the file.
-/

namespace Oasi.Broker

/-- No handle commits while another one is between reading and replacing. -/
def Undisturbed (image : Database → Bytes) : Performing :=
  fun handle before action reply after =>
    Works image handle before action reply after ∧
      (action = .commit → ∀ other, other ≠ handle → (before.position other).inWindow = false)

/-- What the seal should hold. -/
def World.digestText (image : Database → Bytes) (world : World) : Option String :=
  world.database.map fun database => hexdigest (image database) ++ "\n"

/-- What all handles keep together. -/
structure Racing (image : Database → Bytes) (world : World) : Prop where
  tables : world.HasTables
  grown : world.WriterExtends
  named : world.Named
  phase : ∃ phase, world.Holds phase
  /-- A handle in a transaction has no seal to write. -/
  holder : ∀ handle pending, world.writer = some (handle, pending) →
    world.position handle = .outside
  guarded : ∀ text, world.digestText image = some text → world.Guarded text

/-- What other handles leave alone. -/
structure Respects (handle : Handle) (before after : World) : Prop where
  position : after.position handle = before.position handle
  writer : ∀ pending, before.writer = some (handle, pending) →
    after.writer = before.writer ∧ after.database = before.database
  idle : before.IdleAt handle → after.IdleAt handle
  window : (before.position handle).inWindow = true → after.database = before.database

theorem Respects.refl (handle : Handle) (world : World) : Respects handle world world :=
  ⟨rfl, fun _ _ => ⟨rfl, rfl⟩, id, fun _ => rfl⟩

theorem Respects.trans {handle : Handle} {first second third : World}
    (hfirst : Respects handle first second) (hsecond : Respects handle second third) :
    Respects handle first third := by
  constructor
  · exact hsecond.position.trans hfirst.position
  · intro pending h
    obtain ⟨hwriter, hdatabase⟩ := hfirst.writer pending h
    obtain ⟨hwriterNext, hdatabaseNext⟩ := hsecond.writer pending (hwriter.trans h)
    exact ⟨hwriterNext.trans hwriter, hdatabaseNext.trans hdatabase⟩
  · exact hsecond.idle ∘ hfirst.idle
  · intro hwindow
    have hnext := hfirst.position ▸ hwindow
    exact (hsecond.window hnext).trans (hfirst.window hwindow)

/-- Handles that seal without disturbing each other. -/
def racing (image : Database → Bytes) : Interference Handle World Action Reply where
  Performs := Undisturbed image
  Invariant := Racing image
  Rely := Respects
  rely_refl := Respects.refl
  rely_trans := Respects.trans

section Racing

variable {image : Database → Bytes} {handle : Handle} {before after : World}

/-- What an action of one handle leaves to another one that may be sealing. -/
theorem respects_of_acts {action : Action} {reply : Reply action} {other : Handle}
    (h : Acts image handle before action reply after) (hgrown : before.WriterExtends)
    (hother : other ≠ handle)
    (hwindow : (before.position other).inWindow = true → after.database = before.database) :
    Respects other before after := by
  obtain ⟨hothers, _, _⟩ := h.coexists hgrown
  constructor
  · exact h.position_other hother
  · intro pending hpending
    exact hothers other pending hother hpending
  · intro hidle pending hpending
    rcases h.writer hpending with ⟨hhandle, _⟩ | ⟨current, hcurrent⟩
    · exact hother hhandle
    · exact hidle current hcurrent
  · exact hwindow

/-- An action that leaves the file alone owes only what it does to the seal. -/
theorem keeps_of_guarded {action : Action} {reply : Reply action} (hracing : Racing image before)
    (h : Acts image handle before action reply after) (hdatabase : after.database = before.database)
    (hholder : ∀ pending, after.writer = some (handle, pending) → after.position handle = .outside)
    (hguarded : ∀ text, before.Guarded text → before.digestText image = some text →
      after.Guarded text) : (racing image).Keeps handle before after := by
  obtain ⟨phase, hholds⟩ := hracing.phase
  constructor
  · constructor
    · exact tables_of_same hracing.tables hdatabase
    · exact (h.coexists hracing.grown).writer
    · exact h.named hracing.named
    · exact ⟨phase, holds_of_same hholds hdatabase⟩
    · intro other pending hheld
      by_cases hother : other = handle
      · subst hother
        exact hholder pending hheld
      · rcases h.writer hheld with ⟨hhandle, _⟩ | ⟨current, hcurrent⟩
        · exact absurd hhandle hother
        · rw [h.position_other hother]
          exact hracing.holder other current hcurrent
    · intro text htext
      rw [World.digestText, hdatabase] at htext
      exact hguarded text (hracing.guarded text htext) htext
  · intro other hother
    exact respects_of_acts h hracing.grown hother fun _ => hdatabase

/-- An action that is not about the seal keeps its guard. -/
theorem keeps_still {action : Action} {reply : Reply action} (hracing : Racing image before)
    (h : Acts image handle before action reply after) (hdatabase : after.database = before.database)
    (hfiles : action.onSealFiles = false)
    (hstill : (before.position handle).next action reply = before.position handle)
    (hholder : ∀ pending, after.writer = some (handle, pending) →
      after.position handle = .outside) :
    (racing image).Keeps handle before after := by
  apply keeps_of_guarded hracing h hdatabase hholder
  intro text hguarded _
  exact Guarded.of_same hguarded (h.sameFiles hfiles) (h.position_still hstill)

/-- A handle without a transaction has no seal to spare for it. -/
theorem holder_of_idle (hidle : after.IdleAt handle) :
    ∀ pending, after.writer = some (handle, pending) → after.position handle = .outside :=
  fun pending hheld => absurd hheld (hidle pending)

/-- Statements inside a transaction may rely on what sealing handles respect. -/
theorem hosts_racing : Hosts image (racing image) handle False := by
  constructor
  · intro before action reply after h
    exact .inl h.1
  · intro before after committed pending hlater hopen
    obtain ⟨hwriter, hdatabase⟩ := hlater.rely.writer pending hopen.writer
    exact ⟨hdatabase.trans hopen.database, hwriter.trans hopen.writer⟩
  · intro before action reply after committed pending written hracing hopen haction h hafter
    have hfiles : action.onSealFiles = false := by cases action <;> first | rfl | cases haction
    have hmoves : action.moves = false := by cases action <;> first | rfl | cases haction
    have hstill := next_of_still hmoves (before.position handle) reply
    apply keeps_still hracing h.1.acts (hafter.database.trans hopen.database.symm) hfiles hstill
    intro _ _
    rw [h.1.acts.position_still hstill]
    exact hracing.holder handle pending hopen.writer

/-! ## The seal -/

/-- The stages of a seal while other handles move. -/
def InRace (image : Database → Bytes) (handle : Handle) (stage : Stage) (world : World) : Prop :=
  world.IdleAt handle ∧ match stage with
    | .begun => world.position handle = .committed
    | .read bytes => world.position handle = .read ∧ world.Contains image bytes
    | .opened bytes inode => world.position handle = .opened inode ∧ world.Contains image bytes
    | .written _ inode => world.position handle = .written inode
    | .replaced => world.position handle = .outside

/-- The handle is not about to seal and holds no transaction. -/
def Rested (handle : Handle) (world : World) : Prop :=
  world.IdleAt handle ∧ world.position handle = .outside

/-- What an action at a stage of a seal leads to. -/
def Proceeds (image : Database → Bytes) (handle : Handle) (stage : Stage) {action : Action}
    (reply : Reply action) (world : World) : Prop :=
  match reply with
  | .ok value => InRace image handle (stage.next action value) world
  | .error _ => Rested handle world

/-- A handle that rests is left in peace. -/
theorem Rested.later (hlater : (racing image).Later handle before after)
    (hrested : Rested handle before) : Rested handle after :=
  ⟨hlater.rely.idle hrested.1, hlater.rely.position.trans hrested.2⟩

/-- A stage of a seal outlasts the steps of other handles. -/
theorem InRace.later {stage : Stage} (hlater : (racing image).Later handle before after)
    (hin : InRace image handle stage before) : InRace image handle stage after := by
  obtain ⟨hidle, hstage⟩ := hin
  refine ⟨hlater.rely.idle hidle, ?_⟩
  have hposition := hlater.rely.position
  cases stage with
  | begun => exact hposition.trans hstage
  | read bytes =>
      have hsame := hlater.rely.window (by rw [hstage.1]; rfl)
      exact ⟨hposition.trans hstage.1, contains_of_same hstage.2 hsame⟩
  | opened bytes inode =>
      have hsame := hlater.rely.window (by rw [hstage.1]; rfl)
      exact ⟨hposition.trans hstage.1, contains_of_same hstage.2 hsame⟩
  | written bytes inode => exact hposition.trans hstage
  | replaced => exact hposition.trans hstage

/-- An action of the seal that is not about its files. -/
theorem race_still {stage : Stage} {action : Action} {reply : Reply action}
    (hracing : Racing image before) (hin : InRace image handle stage before)
    (h : Works image handle before action reply after) (hreply : ∃ value, reply = .ok value)
    (huntouched : action.touches = false) (hfiles : action.onSealFiles = false)
    (hmoves : action.moves = false) (hquiet : action.quiet)
    (hnext : ∀ value, stage.next action value = stage) :
    (racing image).Keeps handle before after ∧ Proceeds image handle stage reply after := by
  obtain ⟨hidle, hstage⟩ := hin
  have hdatabase := (h.acts.untouched huntouched).1
  have hidleAfter := idle_of_acts hquiet hidle h.acts
  refine ⟨keeps_still hracing h.acts hdatabase hfiles (next_of_still hmoves _ _)
    (holder_of_idle hidleAfter), ?_⟩
  obtain ⟨value, rfl⟩ := hreply
  have hposition : after.position handle = before.position handle :=
    h.acts.position_still (next_of_still hmoves _ _) handle
  have hstays : InRace image handle stage after := by
    refine ⟨hidleAfter, ?_⟩
    cases stage with
    | begun => exact hposition.trans hstage
    | read bytes => exact ⟨hposition.trans hstage.1, contains_of_same hstage.2 hdatabase⟩
    | opened bytes inode => exact ⟨hposition.trans hstage.1, contains_of_same hstage.2 hdatabase⟩
    | written bytes inode => exact hposition.trans hstage
    | replaced => exact hposition.trans hstage
  show InRace image handle (stage.next action value) after
  rw [hnext value]
  exact hstays

/-- The file is read as it was committed last. -/
theorem race_read {reply : Reply .readDatabase} (hracing : Racing image before)
    (hin : InRace image handle .begun before)
    (h : Works image handle before .readDatabase reply after) :
    (racing image).Keeps handle before after ∧ Proceeds image handle .begun reply after := by
  obtain ⟨hidle, hposition⟩ := hin
  obtain ⟨hdatabase, hread⟩ := acts_readDatabase h.acts
  have hquiet : Action.quiet .readDatabase := ⟨rfl, by simp⟩
  have hmoved := h.acts.position
  rw [hposition] at hmoved
  cases reply with
  | ok bytes =>
      refine ⟨?_, idle_of_acts hquiet hidle h.acts, hmoved, hread bytes rfl⟩
      apply keeps_of_guarded hracing h.acts hdatabase
        (holder_of_idle (idle_of_acts hquiet hidle h.acts))
      intro text hguarded _
      exact guarded_read (fun _ => h.acts.position_other) hguarded (h.acts.sameFiles rfl) hposition
        hmoved
  | error raised =>
      obtain ⟨database, hpresent, _⟩ := hracing.tables
      obtain ⟨made, hperform, _⟩ := h
      rw [perform, hpresent] at hperform
      cases hperform

/-- The temporary file is opened and not yet written. -/
theorem race_open {bytes : Bytes} {reply : Reply .openTemporary} (hracing : Racing image before)
    (hin : InRace image handle (.read bytes) before)
    (h : Works image handle before .openTemporary reply after) :
    (racing image).Keeps handle before after ∧
      Proceeds image handle (.read bytes) reply after := by
  obtain ⟨hidle, hposition, hcontains⟩ := hin
  have hdatabase := (h.acts.untouched rfl).1
  have hquiet : Action.quiet .openTemporary := ⟨rfl, by simp⟩
  obtain ⟨_, _, htemporary⟩ := acts_openTemporary hracing.named h.acts
  have hmoved := h.acts.position
  rw [hposition] at hmoved
  cases reply with
  | ok inode =>
      refine ⟨?_, idle_of_acts hquiet hidle h.acts, hmoved, contains_of_same hcontains hdatabase⟩
      apply keeps_of_guarded hracing h.acts hdatabase
        (holder_of_idle (idle_of_acts hquiet hidle h.acts))
      intro text _ _
      exact guarded_open hmoved (htemporary inode rfl)
  | error raised =>
      obtain ⟨made, hperform, _⟩ := h
      rw [perform] at hperform
      split at hperform <;> cases hperform

/-- The temporary file holds the digest of the file. -/
theorem race_write {bytes : Bytes} {inode : Nat}
    {reply : Reply (.writeTemporary inode (hexdigest bytes ++ "\n"))}
    (hracing : Racing image before) (hin : InRace image handle (.opened bytes inode) before)
    (h : Works image handle before (.writeTemporary inode (hexdigest bytes ++ "\n")) reply after) :
    (racing image).Keeps handle before after ∧
      Proceeds image handle (.opened bytes inode) reply after := by
  obtain ⟨hidle, hposition, hcontains⟩ := hin
  have hacts := h.acts
  have hmoved := hacts.position
  rw [hposition] at hmoved
  obtain ⟨made, hperform, hafter⟩ := h
  cases hperform
  have hidleAfter := idle_of_acts ⟨rfl, by simp⟩ hidle hacts
  refine ⟨?_, hidleAfter, hmoved⟩
  apply keeps_of_guarded hracing hacts (hacts.untouched rfl).1 (holder_of_idle hidleAfter)
  intro text hguarded htext
  -- the handle has read the file as it still is
  have hdigest : hexdigest bytes ++ "\n" = text := by
    unfold World.Contains at hcontains
    obtain ⟨database, hdatabase, rfl⟩ := Option.map_eq_some_iff.mp hcontains
    rw [World.digestText, hdatabase] at htext
    exact Option.some.inj htext
  apply guarded_write (fun _ => hacts.position_other) hguarded hposition hmoved
  · rw [hafter]
    rfl
  · rw [hafter]
    rfl
  · rw [hafter, ← hdigest]
    exact if_pos rfl
  · intro other hother
    rw [hafter]
    exact if_neg hother

/-- The seal holds the digest of the file. -/
theorem race_replace {bytes : Bytes} {inode : Nat} {reply : Reply .replaceSeal}
    (hracing : Racing image before) (hin : InRace image handle (.written bytes inode) before)
    (h : Works image handle before .replaceSeal reply after) :
    (racing image).Keeps handle before after ∧ Rested handle after := by
  obtain ⟨hidle, hposition⟩ := hin
  have hacts := h.acts
  have hmoved := hacts.position
  rw [hposition] at hmoved
  have hidleAfter := idle_of_acts ⟨rfl, by simp⟩ hidle hacts
  refine ⟨?_, hidleAfter, hmoved⟩
  apply keeps_of_guarded hracing hacts (hacts.untouched rfl).1 (holder_of_idle hidleAfter)
  -- the seal takes over what the shared temporary file holds
  intro text hguarded _
  obtain ⟨made, hperform, hafter⟩ := h
  rw [perform] at hperform
  cases htemporary : before.temporaryInode with
  | some found =>
      rw [htemporary] at hperform
      cases hperform
      apply guarded_replace (fun _ => hacts.position_other) hguarded hposition hmoved
      · rw [hafter]
        rfl
      · rw [hafter]
        rfl
      · intro other hother
        rw [htemporary, Option.some.injEq] at hother
        rw [hafter, ← hother]
        rfl
      · intro hnone
        rw [htemporary] at hnone
        cases hnone
  | none =>
      -- another handle has replaced the seal by the shared temporary file
      rw [htemporary] at hperform
      cases hperform
      apply guarded_replace (fun _ => hacts.position_other) hguarded hposition hmoved
      · rw [hafter]
        rfl
      · rw [hafter]
        exact htemporary
      · intro other hother
        rw [htemporary] at hother
        cases hother
      · intro _
        rw [hafter]
        rfl

/-- The seal of a handle that shares the ledger. -/
def racingSeal (image : Database → Bytes) (handle : Handle) : Outline (racing image) handle where
  At := InRace image handle
  Failed := Rested handle
  stays := InRace.later
  fails := Rested.later
  acts := by
    intro stage action before reply after hexpects hracing hin h
    have hworks : Works image handle before action reply after := h.1
    cases hexpects with
    | readDatabase => exact race_read hracing hin hworks
    | openTemporary bytes => exact race_open hracing hin hworks
    | writeTemporary bytes inode => exact race_write hracing hin hworks
    | replaceSeal bytes inode =>
        obtain ⟨hkeeps, hrested⟩ := race_replace hracing hin hworks
        refine ⟨hkeeps, ?_⟩
        cases reply with
        | ok value => exact hrested
        | error raised => exact hrested
    | checkpoint | syncTemporary | openDirectory | syncDirectory | closeDirectory =>
        apply race_still hracing hin hworks _ rfl rfl rfl ⟨rfl, by simp⟩ (fun _ => rfl)
        obtain ⟨made, hperform, _⟩ := hworks
        cases hperform
        exact ⟨(), rfl⟩
  closes := by
    intro before reply after hracing hrested h
    have hacts := h.1.acts
    have hstill := @next_of_still .closeDirectory rfl (before.position handle) reply
    have hidle := idle_of_acts ⟨rfl, by simp⟩ hrested.1 hacts
    refine ⟨keeps_still hracing hacts (hacts.untouched rfl).1 rfl hstill (holder_of_idle hidle),
      hidle, ?_⟩
    exact (hacts.position_still hstill handle).trans hrested.2

/-! ## The methods -/

/-- A commit begins what the handle owes the seal. -/
theorem race_commit {committed pending : Database} {next : Phase} {reply : Reply .commit}
    (hracing : Racing image before) (hopen : before.Open handle committed pending)
    (hpending : pending.Holds next) (h : Undisturbed image handle before .commit reply after) :
    (racing image).Keeps handle before after ∧ match reply with
      | .ok _ => InRace image handle .begun after
      | .error _ => after.position handle = .outside := by
  have hacts := h.1.acts
  have hposition := hracing.holder handle pending hopen.writer
  have hmoved := hacts.position
  rw [hposition] at hmoved
  rcases acts_commit hopen hacts with ⟨rfl, hwriter, hdatabase⟩ | ⟨⟨raised, rfl⟩, hstill⟩
  · have hidle : after.IdleAt handle := idle_of_writer hwriter handle
    refine ⟨⟨⟨?_, ?_, ?_, ?_, ?_, ?_⟩, ?_⟩, hidle, hmoved⟩
    · exact hracing.tables.grow (hacts.coexists hracing.grown).grows
    · exact (hacts.coexists hracing.grown).writer
    · exact hacts.named hracing.named
    · exact ⟨next, (holds_of_database hdatabase).mp hpending⟩
    · intro other current hheld
      rw [hwriter] at hheld
      cases hheld
    · intro text _
      exact guarded_commit (fun _ => hacts.position_other) (h.2 rfl) hmoved
    · intro other hother
      apply respects_of_acts hacts hracing.grown hother
      intro hwindow
      rw [h.2 rfl other hother] at hwindow
      cases hwindow
  · refine ⟨?_, hmoved⟩
    exact keeps_still hracing hacts (hstill.database.trans hopen.database.symm) rfl
      (by rw [hposition]; rfl) fun _ _ => hmoved

/-- The `except` branch of a method. -/
theorem race_rollback {raised : Raised} {world : World}
    (hposition : world.position handle = .outside) :
    (racing image).Safe handle (fun _ after => Rested handle after)
      (execute .rollback >>= fun _ => (throw raised : LedgerCall Unit)).run world := by
  apply Interference.safe_call_bind
  apply Interference.safe_execute
  intro middle hmiddle reply after h
  have hacts := h.1.acts
  have hidle := acts_rollback hacts
  have hstill := @next_of_still .rollback rfl (middle.position handle) reply
  refine ⟨keeps_still hmiddle.invariant hacts (hacts.sameDatabase rfl) rfl hstill
    (holder_of_idle hidle), ?_⟩
  intro last hlast
  have hrested : Rested handle last := by
    apply Rested.later hlast
    exact ⟨hidle, (hacts.position_still hstill handle).trans
      (hmiddle.rely.position.trans hposition)⟩
  cases reply with
  | ok value => exact fun final hfinal => hrested.later hfinal
  | error error => exact fun final hfinal => hrested.later hfinal

/-- The part of a method between `BEGIN IMMEDIATE` and its end. -/
theorem race_statements {operation : Operation} {statements : LedgerCall Unit} {world : World}
    {committed : Database} {phase : Phase} (hcarries : Carries image operation statements)
    (hopen : world.Open handle committed committed) (htables : committed.HasTables)
    (hholds : committed.Holds phase) :
    (racing image).Safe handle (fun outcome after => match outcome with
      | .ok _ => Rested handle after
      | .error _ => after.position handle = .outside)
      (do statements; execute .commit; Ledger._seal : LedgerCall Unit).run world := by
  apply Interference.safe_call_bind
  apply (hcarries _ handle False hosts_racing world committed phase hopen htables hholds).imp
  intro outcome written _ hwithin
  cases outcome with
  | error raised =>
      obtain ⟨_, pending, hstill⟩ := hwithin
      intro last hlast
      exact hlast.invariant.holder handle pending (hosts_racing.stays hlast hstill).writer
  | ok value =>
      obtain ⟨pending, hpendingOpen, next, _, hpending⟩ := hwithin
      apply Interference.safe_call_bind
      apply Interference.safe_execute
      intro ready hready reply done h
      obtain ⟨hkeeps, hdone⟩ :=
        race_commit hready.invariant (hosts_racing.stays hready hpendingOpen) hpending h
      refine ⟨hkeeps, ?_⟩
      intro last hlast
      cases reply with
      | ok value =>
          apply ((racingSeal image handle).safe (InRace.later hlast hdone)).imp
          intro outcome final _ hends
          cases outcome with
          | ok value => exact hends
          | error raised => exact hends.2
      | error raised =>
          intro final hfinal
          exact hfinal.rely.position.trans (hlast.rely.position.trans hdone)

/-- A method leaves its handle at rest. -/
theorem race_method {operation : Operation} (hmethod : operation ≠ .construct) {world : World}
    (hrested : Rested handle world) :
    (racing image).Safe handle (fun _ after => Rested handle after) operation.call.run world := by
  obtain ⟨statements, hcall, hcarries⟩ := @exists_statements image operation hmethod
  rw [hcall]
  apply Interference.safe_call_bind
  apply Interference.safe_execute
  intro middle hmiddle reply begun h
  have hacts := h.1.acts
  have hidle := hmiddle.rely.idle hrested.1
  have hposition := hmiddle.rely.position.trans hrested.2
  have hstill := @next_of_still .beginImmediate rfl (middle.position handle) reply
  have hbegun : begun.position handle = .outside :=
    (hacts.position_still hstill handle).trans hposition
  refine ⟨keeps_still hmiddle.invariant hacts (hacts.sameDatabase rfl) rfl hstill
    fun _ _ => hbegun, ?_⟩
  intro opened hopened
  cases reply with
  | error raised =>
      have hafter : Rested handle begun := ⟨acts_begin_error hidle hacts, hbegun⟩
      exact fun last hlast => (hafter.later hopened).later hlast
  | ok value =>
      obtain ⟨committed, hdatabase, hopen⟩ := acts_begin hacts rfl
      have hopen := hosts_racing.stays hopened hopen
      obtain ⟨current, hcurrent, htables⟩ := hopened.invariant.tables
      rw [hopen.database, Option.some.injEq] at hcurrent
      subst hcurrent
      obtain ⟨phase, hholds⟩ := hopened.invariant.phase
      have hcommitted : committed.Holds phase :=
        (@holds_of_database _ committed _ committed.changes hopen.database).mpr hholds
      apply Interference.safe_tryCatch
      apply (race_statements hcarries hopen htables hcommitted).imp
      intro outcome after _ hafter
      cases outcome with
      | ok value => exact fun last hlast => hafter.later hlast
      | error raised => exact race_rollback hafter

/-! ## The constructor -/

/-- On a file with both tables the constructor changes nothing. -/
theorem race_settled {call : LedgerCall Unit} (huses : call.run.Uses (·.settled = true))
    {world : World} (hrested : Rested handle world) :
    (racing image).Safe handle (fun _ after => Rested handle after) call.run world := by
  apply Interference.safe_of_uses _ _ huses hrested
  · intro before after hlater hbefore
    exact hbefore.later hlater
  · intro before action reply after haction hracing hbefore h
    have hacts := h.1.acts
    have hdatabase := settled_database haction hbefore.1 hracing.tables hacts
    have hfiles : action.onSealFiles = false := by cases action <;> first | rfl | cases haction
    have hstill : (before.position handle).next action reply = before.position handle := by
      rw [hbefore.2]
      cases action <;> first | rfl | cases haction
    have hidle := idle_of_acts (settled_quiet haction) hbefore.1 hacts
    exact ⟨keeps_still hracing hacts hdatabase hfiles hstill (holder_of_idle hidle), hidle,
      (hacts.position_still hstill handle).trans hbefore.2⟩

/-- The constructor leaves its handle at rest. -/
theorem race_construct {world : World} (hrested : Rested handle world) :
    (racing image).Safe handle (fun _ after => Rested handle after)
      Operation.construct.call.run world := by
  apply Interference.safe_call_bind
  apply Interference.safe_execute
  intro middle hmiddle reply begun h
  have hacts := h.1.acts
  have hstill := @next_of_still .pathExists rfl (middle.position handle) reply
  have hbefore := hrested.later hmiddle
  have hidle := idle_of_acts ⟨rfl, by simp⟩ hbefore.1 hacts
  have hbegun : Rested handle begun :=
    ⟨hidle, (hacts.position_still hstill handle).trans hbefore.2⟩
  refine ⟨keeps_still hmiddle.invariant hacts (hacts.untouched rfl).1 rfl hstill
    (holder_of_idle hidle), ?_⟩
  intro opened hopened
  have hopenedRested := hbegun.later hopened
  cases reply with
  | error raised => exact fun last hlast => hopenedRested.later hlast
  | ok existed =>
      have hexisted : existed = true := by
        obtain ⟨database, hdatabase, _⟩ := hmiddle.invariant.tables
        obtain ⟨made, hperform, _⟩ := h.1
        rw [perform, hdatabase] at hperform
        cases hperform
        rfl
      subst hexisted
      exact race_settled construct_settled hopenedRested

/-! ## Between the calls -/

/-- What is recorded of a handle that is not about to seal moves nothing. -/
theorem keeps_recorded {world : World} {happening : Happening} (hracing : Racing image world)
    (hpositions : ∀ other, (world.record happening).position other = world.position other) :
    (racing image).Keeps handle world (world.record happening) := by
  obtain ⟨phase, hholds⟩ := hracing.phase
  constructor
  · constructor
    · exact hracing.tables
    · exact hracing.grown
    · exact hracing.named.record happening
    · exact ⟨phase, hholds.attempts, hholds.events⟩
    · intro other pending hheld
      rw [hpositions]
      exact hracing.holder other pending hheld
    · intro text htext
      exact Guarded.of_same (hracing.guarded text htext) ⟨rfl, rfl, rfl, rfl⟩ hpositions
  · intro other _
    exact ⟨hpositions other, fun _ _ => ⟨rfl, rfl⟩, id, fun _ => rfl⟩

/-- The end of a call moves nobody who is not sealing. -/
theorem position_returned {world : World} {operation : Operation} {outcome : Except Raised Unit}
    (hposition : world.position handle = .outside) (other : Handle) :
    (world.record (.returned handle operation outcome)).position other = world.position other := by
  rw [World.position, World.record, List.foldr_cons, World.moved]
  by_cases hother : handle = other
  · subst hother
    rw [if_pos rfl]
    exact hposition.symm
  · rw [if_neg hother]
    rfl

end Racing

/-! ## Runs -/

/-- The discipline of handles that do not disturb each other's seals. -/
def raceDiscipline (image : Database → Bytes) : Discipline where
  toInterference := racing image
  Rests := fun handle _ world => Rested handle world
  Returns := fun handle _ _ world => Rested handle world
  rests_later := fun hrests hlater => hrests.later hlater
  starts := by
    intro handle ready world operation _ hrests _
    by_cases hoperation : operation = .construct
    · subst hoperation
      exact race_construct hrests
    · exact race_method hoperation hrests
  returns := by
    intro handle operation outcome world hracing hrested
    have hpositions := @position_returned handle world operation outcome hrested.2
    exact ⟨keeps_recorded hracing hpositions, hrested.1, (hpositions handle).trans hrested.2⟩
  closes := by
    intro handle world hracing hrested
    rcases release_cases world handle with ⟨⟨pending, hheld⟩, _⟩ | ⟨_, hrelease⟩
    · exact absurd hheld (hrested.1 pending)
    · rw [hrelease]
      exact ⟨⟨hracing, fun other _ => Respects.refl other world⟩, hrested⟩
  applies := by
    intro handle world hracing hrested _
    exact ⟨keeps_recorded hracing fun _ => rfl, hrested⟩

/-- Handles at rest on a ledger that was sealed: nobody is in a call. -/
structure AtRest (image : Database → Bytes) (system : System) : Prop where
  idle : system.Idle
  writer : system.world.writer = none
  tables : system.world.HasTables
  named : system.world.Named
  phase : ∃ phase, system.world.Holds phase
  outside : ∀ handle, system.world.position handle = .outside
  resealed : system.world.Sealed image

section Runs

variable {image : Database → Bytes} {start system : System}

/-- Handles at rest begin with a seal that is guarded. -/
theorem AtRest.governs (hrest : AtRest image start) : (raceDiscipline image).Governs start := by
  have hrested : ∀ handle, Rested handle start.world :=
    fun handle => ⟨idle_of_writer hrest.writer handle, hrest.outside handle⟩
  constructor
  · obtain ⟨database, hdatabase, hseal⟩ := hrest.resealed
    obtain ⟨inode, hinode, htext⟩ := Option.map_eq_some_iff.mp hseal
    constructor
    · exact hrest.tables
    · intro holder pending hheld
      rw [hrest.writer] at hheld
      cases hheld
    · exact hrest.named
    · exact hrest.phase
    · exact fun handle _ _ => hrest.outside handle
    · intro text hdigest
      rw [World.digestText, hdatabase, Option.map_some, Option.some.injEq] at hdigest
      constructor
      · intro handle _ hholds
        rw [hrest.outside handle] at hholds
        cases hholds
      · exact .inr (.inr ⟨inode, hinode, .inl (htext.trans hdigest)⟩)
  · intro handle
    cases hstatus : start.status handle with
    | absent => exact hrested handle
    | ready => exact hrested handle
    | running operation rest => exact absurd hstatus (hrest.idle handle operation rest)

/-- When no call is running every handle rests. -/
theorem rested_of_idle (hgoverns : (raceDiscipline image).Governs system) (hidle : system.Idle)
    (handle : Handle) : Rested handle system.world := by
  have hfits := hgoverns.fits handle
  cases hstatus : system.status handle with
  | absent =>
      rw [hstatus] at hfits
      exact hfits
  | ready =>
      rw [hstatus] at hfits
      exact hfits
  | running operation rest => exact absurd hstatus (hidle handle operation rest)

/-- When every operation has finished, what guards the seal is the seal itself. -/
theorem sealed_of_guarded {world : World} (hracing : Racing image world)
    (houtside : ∀ handle, world.position handle = .outside) : world.Sealed image := by
  obtain ⟨database, hdatabase, _⟩ := hracing.tables
  have hdigest : world.digestText image = some (hexdigest (image database) ++ "\n") := by
    rw [World.digestText, hdatabase]
    rfl
  rcases (hracing.guarded _ hdigest).seals with ⟨handle, howes⟩ | ⟨handle, hholds, _⟩ |
    ⟨inode, hinode, htext | ⟨handle, hopened⟩⟩
  · rw [houtside handle] at howes
    simp at howes
  · rw [houtside handle] at hholds
    cases hholds
  · exact ⟨database, hdatabase, by rw [World.sealText, hinode, Option.map_some, htext]⟩
  · rw [houtside handle] at hopened
    cases hopened

/-- In every run in which no handle commits while another one is between reading
the file and replacing the seal, the seal holds the digest of the file whenever
every operation has finished, and the ledger can be opened. -/
theorem sealed_when_undisturbed (hrest : AtRest image start)
    (hrun : Relation.ReflTransGen (Step (Undisturbed image)) start system)
    (hidle : system.Idle) :
    system.world.Sealed image ∧ ∀ handle, system.status handle = .absent →
      alone image handle Ledger.construct system.world = (.ok (), system.world) := by
  have hgoverns : (raceDiscipline image).Governs system := hrest.governs.run hrun
  have hracing : Racing image system.world := hgoverns.invariant
  have hrested := rested_of_idle hgoverns hidle
  have hsealed := sealed_of_guarded hracing fun handle => (hrested handle).2
  refine ⟨hsealed, ?_⟩
  intro handle _
  obtain ⟨database, hdatabase, hseal⟩ := hsealed
  obtain ⟨current, hcurrent, htables⟩ := hracing.tables
  rw [hdatabase, Option.some.injEq] at hcurrent
  subst hcurrent
  rw [alone_construct_existing (hrested handle).1 hdatabase htables hseal, strip_hexdigest,
    if_pos rfl]

end Runs

/-! ## Two handles that race -/

/-- A choice of one handle does not move the others. -/
theorem pursue_position {image : Database → Bytes} (system : System) (choice : Choice)
    {other : Handle} (hother : other ≠ choice.handle) :
    (system.pursue image choice).world.position other = system.world.position other := by
  cases choice with
  | call handle operation =>
      rw [System.pursue]
      split <;> rfl
  | move handle =>
      rw [System.pursue]
      split
      next operation action next hstatus =>
        have hworks : Works image handle system.world action
            (perform image handle action system.world).1 _ := ⟨_, rfl, rfl⟩
        exact hworks.acts.position_other hother
      next operation outcome hstatus =>
        rw [System.set, World.position, World.record, List.foldr_cons, World.moved]
        exact if_neg (Ne.symm hother)
      · rfl
  | apply handle =>
      rw [System.pursue]
      split
      · split <;> rfl
      · rfl

/-- One handle that moves while the others do not stand in their windows disturbs nobody. -/
theorem follow_undisturbed {image : Database → Bytes} {handle : Handle} (system : System)
    (choices : List Choice) (hchoices : ∀ choice ∈ choices, choice.handle = handle)
    (hothers : ∀ other, other ≠ handle → (system.world.position other).inWindow = false) :
    Relation.ReflTransGen (Step (Undisturbed image)) system (system.follow image choices) := by
  induction choices generalizing system with
  | nil => exact .refl
  | cons choice rest ih =>
      have hhandle := hchoices choice List.mem_cons_self
      have hrest := ih (system.pursue image choice)
        (fun next hnext => hchoices next (List.mem_cons_of_mem _ hnext)) (by
          intro other hother
          rw [pursue_position system choice (hhandle ▸ hother)]
          exact hothers other hother)
      rw [System.follow, List.foldl_cons]
      have hstep := @System.pursue_performs image (Undisturbed image) system choice (by
        intro action reply world hperform
        exact ⟨⟨world, hperform, rfl⟩, fun _ other hother => hothers other (hhandle ▸ hother)⟩)
      rcases hstep with hsame | hstep
      · rw [hsame] at hrest ⊢
        exact hrest
      · exact (Relation.ReflTransGen.single hstep).trans hrest

/-- Two handles on a new ledger. -/
def twoHandles : System :=
  System.start.follow Database.countChanges (wholeCall 0 .construct ++ wholeCall 1 .construct)

/-- The first handle commits and reads the file; the second one commits and seals;
then the first one replaces that seal by its own. -/
def sealRace : List Choice :=
  .call 0 .prepare :: List.replicate 7 (.move 0) ++ wholeCall 1 .consume ++
    List.replicate 32 (.move 0)

/-- Two handles that have ended leave nobody in a call. -/
theorem idle_follow {image : Database → Bytes} {choices : List Choice}
    (hchoices : ∀ choice ∈ choices, choice.handle = 0 ∨ choice.handle = 1)
    (hfirst : ((System.start.follow image choices).status 0).isRunning = false)
    (hsecond : ((System.start.follow image choices).status 1).isRunning = false) :
    (System.start.follow image choices).Idle := by
  intro handle operation rest hrunning
  by_cases hzero : handle = 0
  · subst hzero
    rw [hrunning] at hfirst
    cases hfirst
  · by_cases hone : handle = 1
    · subst hone
      rw [hrunning] at hsecond
      cases hsecond
    · have hstatus : (System.start.follow image choices).status handle = .absent := by
        apply System.follow_status
        intro choice hchoice
        rcases hchoices choice hchoice with h | h
        · rw [h]
          exact hzero
        · rw [h]
          exact hone
      rw [hstatus] at hrunning
      cases hrunning

/-- A schedule does not move the handles it does not name. -/
theorem position_follow {image : Database → Bytes} {choices : List Choice} {handle : Handle}
    (hhandle : ∀ choice ∈ choices, handle ≠ choice.handle) (system : System) :
    (system.follow image choices).world.position handle = system.world.position handle := by
  induction choices generalizing system with
  | nil => rfl
  | cons choice rest ih =>
      have hrest := ih (fun next hnext => hhandle next (List.mem_cons_of_mem _ hnext))
        (system.pursue image choice)
      exact hrest.trans (pursue_position system choice (hhandle choice List.mem_cons_self))

/-- Only the first two handles take part. -/
theorem handle_construct : ∀ choice ∈ wholeCall 0 .construct ++ wholeCall 1 .construct,
    choice.handle = 0 ∨ choice.handle = 1 := by
  simp [wholeCall, Choice.handle]

/-- What the two handles have made, computed. -/
theorem twoHandles_eq :
    (twoHandles.world.database = some ⟨some [], some [], 2⟩ ∧ twoHandles.world.writer = none ∧
      twoHandles.world.sealInode = some 0 ∧ twoHandles.world.temporaryInode = none ∧
      twoHandles.world.fresh = 1 ∧
      twoHandles.world.sealText = twoHandles.world.digestText Database.countChanges) ∧
    (twoHandles.status 0).isRunning = false ∧ (twoHandles.status 1).isRunning = false ∧
      twoHandles.world.position 0 = .outside ∧ twoHandles.world.position 1 = .outside := by
  decide +kernel

/-- Two new handles are at rest on a sealed ledger. -/
theorem atRest_twoHandles : AtRest Database.countChanges twoHandles := by
  have hchoices := handle_construct
  obtain ⟨⟨hdatabase, hwriter, hseal, htemporary, hfresh, htext⟩, hfirst, hsecond, houtside,
    houtsideSecond⟩ := twoHandles_eq
  constructor
  · rw [twoHandles] at hfirst hsecond ⊢
    exact idle_follow hchoices hfirst hsecond
  · exact hwriter
  · exact ⟨_, hdatabase, ⟨rfl, rfl⟩⟩
  · constructor
    · rw [htemporary]
      simp
    · rw [hseal, hfresh]
      simp
    · rw [htemporary]
      simp
  · have hattempts : twoHandles.world.attemptRows = [] := by
      rw [World.attemptRows, hdatabase]
      rfl
    have hevents : twoHandles.world.eventRows = [] := by
      rw [World.eventRows, hdatabase]
      rfl
    exact ⟨.absent, hattempts, hevents⟩
  · intro handle
    by_cases hzero : handle = 0
    · rw [hzero]
      exact houtside
    · by_cases hone : handle = 1
      · rw [hone]
        exact houtsideSecond
      · apply position_follow
        intro choice hchoice
        rcases hchoices choice hchoice with h | h
        · rw [h]
          exact hzero
        · rw [h]
          exact hone
  · rw [World.digestText, hdatabase, Option.map_some] at htext
    exact ⟨_, hdatabase, htext⟩

/-- How the race ends, computed. -/
theorem sealRace_eq :
    let system := twoHandles.follow Database.countChanges sealRace
    (system.status 0).isRunning = false ∧ (system.status 1).isRunning = false ∧
      system.world.sealText ≠ system.world.digestText Database.countChanges ∧
      (alone Database.countChanges 2 Ledger.construct system.world).1 =
        .error (.protocol "ledger seal mismatch") := by
  decide +kernel

/-- From the two handles on, nobody else is in a call either. -/
theorem idle_follow_twoHandles {choices : List Choice}
    (hchoices : ∀ choice ∈ choices, choice.handle = 0 ∨ choice.handle = 1)
    (hfirst : ((twoHandles.follow Database.countChanges choices).status 0).isRunning = false)
    (hsecond : ((twoHandles.follow Database.countChanges choices).status 1).isRunning = false) :
    (twoHandles.follow Database.countChanges choices).Idle := by
  rw [twoHandles, System.follow_append] at hfirst hsecond ⊢
  apply idle_follow _ hfirst hsecond
  intro choice hchoice
  rcases List.mem_append.mp hchoice with hbuilt | hlater
  · exact handle_construct choice hbuilt
  · exact hchoices choice hlater

/-- Every operation has finished without an error, and the ledger cannot be opened. -/
theorem unsealed_by_a_race :
    ∃ start system, AtRest Database.countChanges start ∧
      Relation.ReflTransGen (Step (Works Database.countChanges)) start system ∧ system.Idle ∧
      ¬system.world.Sealed Database.countChanges ∧
      (alone Database.countChanges 2 Ledger.construct system.world).1 =
        .error (.protocol "ledger seal mismatch") := by
  obtain ⟨hfirst, hsecond, hdiffers, hmismatch⟩ := sealRace_eq
  refine ⟨twoHandles, twoHandles.follow Database.countChanges sealRace, atRest_twoHandles,
    System.follow_steps _ _, ?_, ?_, hmismatch⟩
  · apply idle_follow_twoHandles _ hfirst hsecond
    simp [wholeCall, sealRace, Choice.handle]
  · rintro ⟨database, hdatabase, hseal⟩
    apply hdiffers
    rw [hseal, World.digestText, hdatabase]
    rfl

/-- The first handle commits; before it reads the file, the second one commits and seals. -/
def overtaken : System :=
  (twoHandles.follow Database.countChanges (.call 0 .prepare :: List.replicate 5 (.move 0))).follow
    Database.countChanges (wholeCall 1 .consume)

/-- The first handle has its seal still to write. -/
theorem overtaken_eq :
    overtaken.world.attemptRows.map (·.state) = [.text "CONSUMED"] ∧
      overtaken.world.position 0 = .committed ∧ overtaken.world.position 1 = .outside := by
  decide +kernel

/-- No third handle takes part. -/
theorem position_overtaken {handle : Handle} (hfirst : handle ≠ 0) (hsecond : handle ≠ 1) :
    overtaken.world.position handle = .outside := by
  rw [overtaken, position_follow, position_follow]
  · exact atRest_twoHandles.outside handle
  · simpa [Choice.handle] using hfirst
  · simpa [wholeCall, Choice.handle] using hsecond

/-- Neither of the two commits disturbs a handle between its read and its replacement. -/
theorem overtaken_reached :
    Relation.ReflTransGen (Step (Undisturbed Database.countChanges)) twoHandles overtaken := by
  apply (follow_undisturbed _ _ _ _).trans (follow_undisturbed _ _ _ _)
  · exact 0
  · simp [Choice.handle]
  · intro other _
    rw [atRest_twoHandles.outside other]
    rfl
  · exact 1
  · simp [wholeCall, Choice.handle]
  · intro other hother
    by_cases hfirst : other = 0
    · subst hfirst
      decide +kernel
    · rw [position_follow, atRest_twoHandles.outside other]
      · rfl
      · simpa [Choice.handle] using hfirst

/-- One handle commits and seals between the commit of the other one and its seal. Both have
finished in the end, and the seal is that of the last commit. -/
theorem sealed_when_undisturbed_overtaken :
    ∃ system,
      Relation.ReflTransGen (Step (Undisturbed Database.countChanges)) twoHandles overtaken ∧
      overtaken.world.position 0 = .committed ∧
      overtaken.world.attemptRows.map (·.state) = [.text "CONSUMED"] ∧
      Relation.ReflTransGen (Step (Undisturbed Database.countChanges)) overtaken system ∧
      system.world.Sealed Database.countChanges ∧ ∀ handle, system.status handle = .absent →
        alone Database.countChanges handle Ledger.construct system.world =
          (.ok (), system.world) := by
  obtain ⟨hconsumed, hcommitted, houtside⟩ := overtaken_eq
  have hrest := @follow_undisturbed Database.countChanges 0 overtaken
    (List.replicate 32 (.move 0)) (by simp [Choice.handle]) (by
      intro other hother
      by_cases hsecond : other = 1
      · rw [hsecond, houtside]
        rfl
      · rw [position_overtaken hother hsecond]
        rfl)
  have hrun := overtaken_reached.trans hrest
  refine ⟨_, overtaken_reached, hcommitted, hconsumed, hrest,
    sealed_when_undisturbed atRest_twoHandles hrun ?_⟩
  obtain ⟨hfirst, hsecond⟩ :
      let system := overtaken.follow Database.countChanges (List.replicate 32 (.move 0))
      (system.status 0).isRunning = false ∧ (system.status 1).isRunning = false := by
    decide +kernel
  rw [overtaken, System.follow_append, System.follow_append] at hfirst hsecond ⊢
  apply idle_follow_twoHandles _ hfirst hsecond
  simp [wholeCall, Choice.handle]

end Oasi.Broker
