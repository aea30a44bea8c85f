import Oasi.Broker.Consumption
import Oasi.Broker.Readings
import Oasi.Broker.Sealing

/-! # One story in two tables

In every ledger that calls lead to, in any interleaving and with crashes and
errors of the environment anywhere, the row of the attempt, the chain of events
and the recovery table agree. A call that raises changes no row, unless it was
the seal that failed.
-/

namespace Oasi.Broker

/-! ## Calls that raise -/

/-- Errors of the environment anywhere but in the seal. -/
def SealsWell (image : Database → Bytes) : Performing :=
  fun handle before action reply after =>
    Acts image handle before action reply after ∧ (action.seals = true → reply ≠ .error .fault)

section Raising

variable {image : Database → Bytes} {handle : Handle}

theorem SealsWell.works {action : Action} {reply : Reply action} {before after : World}
    (h : SealsWell image handle before action reply after) (haction : action.seals = true) :
    Works image handle before action reply after := by
  obtain ⟨hacts, hreply⟩ := h
  cases hacts with
  | @performed _ world hperform => exact ⟨world, hperform, rfl⟩
  | faulted _ _ => exact absurd rfl (hreply haction)

/-- A handle that runs alone and whose seal does not fail. -/
def sealingWell (image : Database → Bytes) (handle : Handle) :
    Interference Handle World Action Reply :=
  Interference.solo handle (SealsWell image) fun _ => True

theorem hosts_sealingWell : Hosts image (sealingWell image handle) handle True := by
  constructor
  · intro before action reply after h
    exact .inr ⟨trivial, h.1⟩
  · intro before after committed pending hlater hopen
    rw [Interference.solo_later hlater]
    exact hopen
  · intro before action reply after committed pending written _ _ _ _ _
    exact Interference.solo_keeps trivial

/-- A seal that does not fail: it finds the file and the temporary file it made. -/
def neverFails (image : Database → Bytes) (handle : Handle) :
    Outline (sealingWell image handle) handle where
  At := fun stage world => world.database.isSome = true ∧ match stage with
    | .opened _ _ | .written _ _ => world.temporaryInode.isSome = true
    | _ => True
  Failed := fun _ => False
  stays := by
    intro stage before after hlater hat
    rw [Interference.solo_later hlater]
    exact hat
  fails := fun _ h => h
  acts := by
    intro stage action before reply after hexpects _ hat h
    refine ⟨Interference.solo_keeps trivial, ?_⟩
    obtain ⟨hdatabase, htemporary⟩ := hat
    obtain ⟨database, hpresent⟩ := Option.isSome_iff_exists.mp hdatabase
    have hworks : Works image handle before action reply after :=
      h.works (by cases hexpects <;> rfl)
    obtain ⟨made, hperform, rfl⟩ := hworks
    cases hexpects with
    | openTemporary =>
        rw [perform] at hperform
        split at hperform
        next hinode =>
          cases hperform
          exact ⟨hdatabase, by simp [Stage.next, World.record, World.setText, hinode]⟩
        · cases hperform
          exact ⟨hdatabase, rfl⟩
    | replaceSeal =>
        obtain ⟨inode, hinode⟩ := Option.isSome_iff_exists.mp htemporary
        rw [perform, hinode] at hperform
        cases hperform
        exact ⟨hdatabase, trivial⟩
    | readDatabase =>
        rw [perform, hpresent] at hperform
        cases hperform
        exact ⟨hdatabase, trivial⟩
    | _ =>
        cases hperform
        exact ⟨hdatabase, htemporary⟩
  closes := fun _ h _ => h.elim

/-- A transaction that raises before its end leaves the file as it found it. -/
theorem statements_raise {operation : Operation} {statements : LedgerCall Unit} {world : World}
    {committed : Database} {phase : Phase} (hcarries : Carries image operation statements)
    (hopen : world.Open handle committed committed) (htables : committed.HasTables)
    (hholds : committed.Holds phase) :
    (sealingWell image handle).Safe handle (fun outcome after => outcome.isOk = false →
      after.database = some committed)
      (do statements; execute .commit; Ledger._seal : LedgerCall Unit).run world := by
  apply Interference.safe_call_bind
  apply Interference.Safe.imp (hcarries _ handle True hosts_sealingWell world committed phase hopen
    htables hholds)
  intro outcome written _ hwritten
  cases outcome with
  | error raised =>
      obtain ⟨_, pending, hstill⟩ := hwritten
      exact Interference.solo_stays fun _ => hstill.database
  | ok value =>
      obtain ⟨pending, hpending, _⟩ := hwritten
      apply Interference.safe_call_bind
      apply Interference.safe_solo
      intro reply after _ h
      refine ⟨trivial, ?_⟩
      rcases acts_commit hpending h.1 with ⟨rfl, _, hdatabase⟩ | ⟨⟨raised, rfl⟩, hstill⟩
      · have hat : (neverFails image handle).At .begun after := by
          refine ⟨?_, trivial⟩
          rw [hdatabase]
          rfl
        apply ((neverFails image handle).safe hat).imp
        intro outcome last _ hends hraises
        cases outcome with
        | ok value => cases hraises
        | error raised => exact hends.elim
      · exact Interference.solo_stays fun _ => hstill.database

/-- A method that raises has changed no row. -/
theorem method_raises {operation : Operation} (hmethod : operation ≠ .construct) {world : World}
    {phase : Phase} (htables : world.HasTables) (hholds : world.Holds phase) :
    (sealingWell image handle).Safe handle (fun outcome after => outcome.isOk = false →
      SameRows world after) operation.call.run world := by
  obtain ⟨statements, hcall, hcarries⟩ := @exists_statements image operation hmethod
  rw [hcall]
  apply Interference.safe_call_bind
  apply Interference.safe_solo
  intro reply begun _ hbegin
  refine ⟨trivial, ?_⟩
  cases reply with
  | error raised => exact Interference.solo_stays fun _ => hbegin.1.sameRows rfl
  | ok value =>
      obtain ⟨committed, hdatabase, hopen⟩ := acts_begin hbegin.1 rfl
      have hcommitted : committed.HasTables ∧ committed.Holds phase := by
        obtain ⟨current, hcurrent, htables⟩ := htables
        rw [hdatabase, Option.some.injEq] at hcurrent
        subst hcurrent
        exact ⟨htables, (@holds_of_database _ committed _ committed.changes hdatabase).mpr hholds⟩
      apply Interference.safe_tryCatch
      apply (statements_raise hcarries hopen hcommitted.1 hcommitted.2).imp
      intro outcome after _ hafter
      cases outcome with
      | ok value => exact Interference.solo_stays fun hraises => by cases hraises
      | error raised =>
          have hrows : SameRows world after :=
            sameRows_of_database ((hafter rfl).trans hdatabase.symm)
          apply Interference.safe_call_bind
          apply Interference.safe_solo
          intro reply ended _ hrollback
          refine ⟨trivial, ?_⟩
          have hend := hrows.trans (hrollback.1.sameRows rfl)
          cases reply with
          | ok value => exact Interference.solo_stays fun _ => hend
          | error error => exact Interference.solo_stays fun _ => hend

/-- A constructor changes no row, whether it raises or not. -/
theorem construct_keeps_rows (world : World) :
    (sealingWell image handle).Safe handle (fun _ after => SameRows world after)
      Operation.construct.call.run world := by
  apply Interference.safe_of_uses _ _ construct_quiet
  · exact sameRows_of_database rfl
  · intro before after hlater hrows
    rw [Interference.solo_later hlater]
    exact hrows
  · intro before action reply after hquiet _ hrows h
    exact ⟨Interference.solo_keeps trivial, hrows.trans (h.1.sameRows hquiet.1)⟩

end Raising

/-- A call that raises leaves both tables unchanged when the seal does not fail. -/
theorem raising_keeps_rows {image : Database → Bytes} {handle : Handle} {operation : Operation}
    {before after : World} {raised : Raised} {phase : Phase}
    (htables : operation ≠ .construct → before.HasTables) (hholds : before.Holds phase)
    (hreaches : operation.call.run.Reaches (SealsWell image handle) before
      (.done (.error raised)) after) : SameRows before after := by
  have hsafe : (sealingWell image handle).Safe handle (fun outcome last => outcome.isOk = false →
      SameRows before last) operation.call.run before := by
    by_cases hoperation : operation = .construct
    · subst hoperation
      exact (construct_keeps_rows before).imp fun _ _ _ hrows _ => hrows
    · exact method_raises hoperation (htables hoperation) hholds
  obtain ⟨hdone, _⟩ := hsafe.reaches (fun _ _ _ _ h => h) hreaches trivial
  exact hdone.post_value trivial rfl

/-! ## The tables of reachable ledgers -/

/-- The events of a whole life, in their order. -/
def milestones : List String :=
  ["PREPARED", "CONSUMED_BEFORE_FIXTURE_NOOP", "FIXTURE_NOOP_RESULT", "TERMINAL"]

/-- The two tables, the chain and the recovery table of a ledger agree on a phase. -/
structure Story (image : Database → Bytes) (system : System) (phase : Phase) : Prop where
  attempts : system.world.attemptRows = phase.row?.toList
  events : system.world.eventRows = chainFrom zeroHash phase.milestones
  inOrder : phase.milestones <+: milestones
  dispatchCount : ∀ row ∈ system.world.attemptRows, row.dispatchCount = .integer
    (if row.state ∈ [.text "CONSUMED", .text "RESULT", .text "TERMINAL"] then 1 else 0)
  receiptDigest : ∀ row ∈ system.world.attemptRows,
    row.receiptDigest.isSome ↔ row.state ∈ [.text "RESULT", .text "TERMINAL"]
  /-- Every handle verifies the ledger and reads this phase off it. -/
  shows : ∀ handle, system.status handle = .ready → Shows image handle system.world phase
  recoveryAction : phase.recoveryAction ≠ "FAIL_CLOSED"
  unconsumed : phase.recoveryAction ∈ ["NO_ACTION", "ABORT_WITHOUT_EFFECT"] →
    system.world.consumers = []
  /-- A call that raises although its seal does not fail changes no row. -/
  raises : ∀ handle operation raised after, (system.status handle).Admits operation →
    operation.call.run.Reaches (SealsWell image handle) system.world (.done (.error raised)) after →
    SameRows system.world after

theorem Phase.milestones_in_order (phase : Phase) :
    phase.milestones <+: Broker.milestones := by
  cases phase with
  | absent => exact List.nil_prefix
  | prepared => exact ⟨_, rfl⟩
  | consumed => exact ⟨_, rfl⟩
  | result receiptDigest => exact ⟨_, rfl⟩
  | terminal receiptDigest => exact ⟨[], rfl⟩

theorem Phase.dispatchCount_row? {phase : Phase} {row : AttemptRow} (h : row ∈ phase.row?.toList) :
    row.dispatchCount = .integer
      (if row.state ∈ [.text "CONSUMED", .text "RESULT", .text "TERMINAL"] then 1 else 0) := by
  cases phase <;> simp_all [row?, Phase.state, Phase.dispatchCount]

theorem Phase.receiptDigest_row? {phase : Phase} {row : AttemptRow} (h : row ∈ phase.row?.toList) :
    row.receiptDigest.isSome ↔ row.state ∈ [.text "RESULT", .text "TERMINAL"] := by
  cases phase <;> simp_all [row?, Phase.state, Phase.receiptDigest]

/-- Only before the consumption the recovery table lets the attempt go. -/
theorem Phase.dispatchCount_of_recoveryAction {phase : Phase}
    (h : phase.recoveryAction ∈ ["NO_ACTION", "ABORT_WITHOUT_EFFECT"]) :
    phase.dispatchCount = 0 := by
  cases phase <;> simp_all [recoveryAction, Phase.dispatchCount]

/-- In every reachable ledger the tables tell one story. -/
theorem tables_tell_one_story {image : Database → Bytes} {system : System}
    (hreachable : Reachable image system) : ∃ phase, Story image system phase := by
  have hgoverns := governs_of_reachable hreachable
  have hsound : system.world.Sound := hgoverns.invariant
  obtain ⟨phase, hholds, hcount⟩ := hsound.phase
  -- a handle that may call a method was constructed, and then the tables are there
  have hready : ∀ handle operation, (system.status handle).Admits operation →
      operation ≠ .construct → system.world.HasTables := by
    intro handle operation hadmits hoperation
    have hfits := hgoverns.fits handle
    cases hstatus : system.status handle with
    | absent =>
        rw [hstatus] at hadmits
        exact absurd hadmits hoperation
    | ready =>
        rw [hstatus] at hfits
        exact hfits.2 rfl
    | running current rest =>
        rw [hstatus] at hadmits
        exact hadmits.elim
  refine ⟨phase, hholds.attempts, hholds.events, phase.milestones_in_order, ?_, ?_, ?_, ?_, ?_, ?_⟩
  · intro row hrow
    rw [hholds.attempts] at hrow
    exact Phase.dispatchCount_row? hrow
  · intro row hrow
    rw [hholds.attempts] at hrow
    exact Phase.receiptDigest_row? hrow
  · intro handle hstatus
    have hfits := hgoverns.fits handle
    rw [hstatus] at hfits
    obtain ⟨database, hdatabase, htables⟩ := hfits.2 rfl
    have hview : system.world.view handle = .ok database := by
      rw [view_of_idle hfits.1, hdatabase, Option.elim]
    exact shows_of_holds hview htables
      ((@holds_of_database _ database _ database.changes hdatabase).mpr hholds)
  · cases phase <;> simp [Phase.recoveryAction]
  · intro haction
    -- every consumption of a handle is among the commits, and there is none
    have hconsumed := length_le_of_count_le hsound.consumed
    rw [hcount, Phase.dispatchCount_of_recoveryAction haction] at hconsumed
    exact List.eq_nil_of_length_eq_zero (Nat.le_zero.mp hconsumed)
  · intro handle operation raised after hadmits hreaches
    exact raising_keeps_rows (hready handle operation hadmits) hholds hreaches

/-- A whole life of one handle, with a second attempt to consume at its end. -/
def wholeLife : List Choice :=
  wholeCall 0 .construct ++ wholeCall 0 .prepare ++ wholeCall 0 .consume ++
    wholeCall 0 (.recordResult "receipt") ++ wholeCall 0 .terminal ++ wholeCall 0 .consume

theorem tables_tell_one_story_to_the_end :
    ∃ system, Reachable Database.countChanges system ∧
      system.world.attemptRows.map (·.state) = [.text "TERMINAL"] ∧
      ∃ phase, Story Database.countChanges system phase :=
  ⟨System.start.follow Database.countChanges wholeLife, reachable_follow _ _, by decide +kernel,
    tables_tell_one_story (reachable_follow _ _)⟩

end Oasi.Broker
