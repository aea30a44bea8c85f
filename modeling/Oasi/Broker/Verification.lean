import Oasi.Broker.Consumption
import Oasi.Broker.Readings

/-! # What a verification shows

`verify` reads the two tables one after the other and compares nothing across them. It
passes exactly on linked events and a dispatch count that is a number neither below zero
nor above one. That the row of the attempt agrees with its events is not shown by it; it
holds because the methods write both in one transaction.
-/

namespace Oasi.Broker

/-- Each event names the hash of the one before it and carries that of its own record. -/
def Linked : StoredValue → List EventRow → Prop
  | _, [] => True
  | previous, row :: rest =>
      row.previousHash = previous ∧
        (∃ record, canonicalJson
            ⟨row.generation, row.context, row.attempt, row.event, previous⟩ = .ok record ∧
          row.recordHash = .text (hexdigest record)) ∧
        Linked row.recordHash rest

/-- The tables agree: the row of the attempt is the one that its events imply. -/
def Consistent (attempts : List AttemptRow) (events : List EventRow) : Prop :=
  ∃ phase : Phase, events.map (·.event) = phase.milestones.map .text ∧
    (attempts.find? (·.current)).map (fun row => (row.state, row.dispatchCount)) =
      phase.row?.map fun row => (row.state, row.dispatchCount)

/-- The loop over the events passes on linked events and on no others. -/
theorem checkChain_eq_ok {previous : StoredValue} {rows : List EventRow} :
    Ledger.checkChain previous rows = .ok () ↔ Linked previous rows := by
  induction rows generalizing previous with
  | nil => exact ⟨fun _ => trivial, fun _ => rfl⟩
  | cons row rest ih =>
      rw [Ledger.checkChain, Linked, bind_eq_ok]
      constructor
      · rintro ⟨record, hrecord, hchecked⟩
        rw [bind_eq_ok] at hchecked
        obtain ⟨⟨⟩, hmatches, hrest⟩ := hchecked
        rw [failIf_eq_ok, not_or, Decidable.not_not, Decidable.not_not] at hmatches
        exact ⟨hmatches.1, ⟨record, hrecord, hmatches.2⟩, ih.mp hrest⟩
      · rintro ⟨hprevious, ⟨record, hrecord, hhash⟩, hrest⟩
        refine ⟨record, hrecord, bind_eq_ok.mpr ⟨(), failIf_eq_ok.mpr ?_, ih.mpr hrest⟩⟩
        rintro (hother | hother)
        · exact hother hprevious
        · exact hother hhash

theorem map_event_chainFrom (previous : String) (milestones : List String) :
    (chainFrom previous milestones).map (·.event) = milestones.map .text := by
  induction milestones generalizing previous with
  | nil => rfl
  | cons event rest ih => rw [chainFrom, List.map_cons, List.map_cons, ih]; rfl

theorem dispatchedTwice_eq_false {row : Option AttemptRow} :
    Ledger.dispatchedTwice row = .ok false ↔ ∀ found ∈ row, found.dispatchCount.InRange := by
  cases row with
  | none => exact iff_of_true rfl fun _ hfound => by cases hfound
  | some row =>
      rw [Ledger.dispatchedTwice, Option.elim_some, StoredValue.outOfRange_eq_false]
      exact ⟨fun h found hfound => Option.mem_some_iff.mp hfound ▸ h, fun h => h row rfl⟩

section Verify

variable {image : Database → Bytes} {handle : Handle} {world : World} {database : Database}

/-- A verification passes exactly on linked events and a count in its range. -/
theorem verify_passes_iff (hview : world.view handle = .ok database) :
    (alone image handle Ledger.verify world).1 = .ok () ↔
      ∃ attempts events, database.attempts = some attempts ∧ database.events = some events ∧
        Linked (.text zeroHash) events ∧ ∀ row ∈ attempts.find? (·.current),
          row.dispatchCount.InRange := by
  have hread : perform image handle .selectEvents world = (database.eventsTable, world) := by
    rw [perform, read_of_view hview]
  have hattempt : perform image handle .selectAttempt world = (database.selectAttempt, world) := by
    rw [perform, read_of_view hview]
  unfold Ledger.verify
  rw [alone_execute_bind rfl, alone_bind, alone_raiseIf, if_neg (by simp)]
  dsimp only
  rw [passes_bind, alone_execute, hread]
  constructor
  · rintro ⟨events, after, htable, hpassed⟩
    rw [Prod.mk.injEq] at htable
    obtain ⟨hevents, rfl⟩ := htable
    -- the chain is checked before the row of the attempt is read at all
    rw [passes_bind, alone_orRaise] at hpassed
    obtain ⟨⟨⟩, after, hchecked, hpassed⟩ := hpassed
    rw [Prod.mk.injEq] at hchecked
    obtain ⟨hchain, rfl⟩ := hchecked
    rw [passes_bind, alone_execute, hattempt] at hpassed
    obtain ⟨row, after, hselected, hpassed⟩ := hpassed
    rw [Prod.mk.injEq] at hselected
    obtain ⟨hrow, rfl⟩ := hselected
    rw [passes_bind, alone_orRaise] at hpassed
    obtain ⟨twice, after, hasked, hpassed⟩ := hpassed
    rw [Prod.mk.injEq] at hasked
    obtain ⟨htwice, rfl⟩ := hasked
    rw [Database.selectAttempt, bind_eq_ok] at hrow
    obtain ⟨attempts, hattempts, hfound⟩ := hrow
    cases hfound
    refine ⟨attempts, events, Database.attemptsTable_iff.mp hattempts,
      Database.eventsTable_iff.mp hevents, checkChain_eq_ok.mp hchain, ?_⟩
    rw [← dispatchedTwice_eq_false, htwice]
    cases twice with
    | false => rfl
    | true => cases hpassed
  · rintro ⟨attempts, events, hattempts, hevents, hlinked, hrange⟩
    refine ⟨events, world, by rw [Database.eventsTable_iff.mpr hevents], ?_⟩
    rw [alone_bind, alone_orRaise, checkChain_eq_ok.mpr hlinked]
    dsimp only
    have hselected : database.selectAttempt = .ok (attempts.find? (·.current)) := by
      rw [Database.selectAttempt, Database.attemptsTable_iff.mpr hattempts]
      rfl
    rw [hselected] at hattempt
    rw [alone_execute_bind hattempt, dispatchedTwice_eq_false.mpr hrange, alone_bind,
      alone_orRaise]
    dsimp only
    rw [alone_raiseIf, if_neg Bool.false_ne_true]

end Verify

/-! ## Tables of the broker and other tables -/

/-- The attempt was consumed, but its row says PREPARED again. -/
def rewrittenDatabase : Database :=
  ⟨some [⟨.integer generation, .text context, .integer attempt, .text "PREPARED", .integer 0,
      none⟩],
    some (chainFrom zeroHash ["PREPARED", "CONSUMED_BEFORE_FIXTURE_NOOP"]), 3⟩

def rewrittenWorld : World := { World.empty with database := some rewrittenDatabase }

theorem find?_rewritten :
    rewrittenDatabase.attemptRows.find? (·.current) =
      some ⟨.integer generation, .text context, .integer attempt, .text "PREPARED", .integer 0,
        none⟩ := by
  simp [rewrittenDatabase, Database.attemptRows]

/-- A verification passes on a rewritten row: the attempt is presented as prepared, and
it is consumed a second time. -/
theorem rewritten_row_verified :
    (alone Database.countChanges 0 Ledger.verify rewrittenWorld).1 = .ok () ∧
      (alone Database.countChanges 0 Ledger.state rewrittenWorld).1 = .ok "PREPARED" ∧
      (alone Database.countChanges 0 Ledger.consume rewrittenWorld).1 = .ok () ∧
      ¬Consistent rewrittenDatabase.attemptRows rewrittenDatabase.eventRows := by
  refine ⟨?_, by decide +kernel, by decide +kernel, ?_⟩
  · apply (@verify_passes_iff _ 0 rewrittenWorld rewrittenDatabase rfl).mpr
    refine ⟨_, _, rfl, rfl, checkChain_eq_ok.mp (checkChain_chainFrom _ _), ?_⟩
    intro row hrow
    have hfound := find?_rewritten.symm.trans hrow
    cases hfound
    exact .zero
  · rintro ⟨phase, hevents, hrow⟩
    rw [find?_rewritten] at hrow
    cases phase <;> simp_all [rewrittenDatabase, Database.eventRows, chainFrom, linkedEvent,
      Phase.milestones, Phase.row?, Phase.state]

/-- What a passed verification shows of any tables, and what the tables of the broker
show besides. -/
theorem verification_shows (image : Database → Bytes) :
    (∀ (handle : Handle) (world : World) (database : Database),
      world.view handle = .ok database →
      ((alone image handle Ledger.verify world).1 = .ok () ↔
        ∃ attempts events, database.attempts = some attempts ∧ database.events = some events ∧
          Linked (.text zeroHash) events ∧ ∀ row ∈ attempts.find? (·.current),
            row.dispatchCount.InRange)) ∧
    ∀ (system : System) (handle : Handle), Reachable image system →
      system.status handle = .ready →
      (alone image handle Ledger.verify system.world).1 = .ok () ∧
        Consistent system.world.attemptRows system.world.eventRows := by
  refine ⟨fun handle world database => verify_passes_iff, ?_⟩
  intro system handle hreachable hstatus
  have hgoverns := governs_of_reachable hreachable
  obtain ⟨phase, hholds, _⟩ := hgoverns.invariant.phase
  have hfits := hgoverns.fits handle
  rw [hstatus] at hfits
  obtain ⟨database, hdatabase, htables⟩ := hfits.2 rfl
  have hview : system.world.view handle = .ok database := by
    rw [view_of_idle hfits.1, hdatabase, Option.elim]
  have hdatabaseHolds := (@holds_of_database _ database _ database.changes hdatabase).mpr hholds
  constructor
  · rw [alone_verify hview htables hdatabaseHolds]
  · refine ⟨phase, ?_, ?_⟩
    · rw [hholds.events, map_event_chainFrom]
    · rw [hholds.attempts, phase.find?_row?]

end Oasi.Broker
