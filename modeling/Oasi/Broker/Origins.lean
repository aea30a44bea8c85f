import Oasi.Broker.Sharing

/-! # Where a result comes from

An attempt stands in the state of a result only when some handle has asked for an
update that says so, whatever else handles do to the tables.
-/

namespace Oasi.Broker

/-- The states of an attempt that has a result. -/
def finishedStates : List String := ["RESULT", "TERMINAL"]

/-- The row says that its attempt has a result. -/
def AttemptRow.Finished (row : AttemptRow) : Prop :=
  ∃ state ∈ finishedStates, row.state = .text state

/-- The actions that may bring an attempt to such a state. -/
def Action.finishes : Action → Bool
  | .updateAttempt .consumed => false
  | .updateAttempt _ => true
  | .insertAttempt state => decide (state ∈ finishedStates)
  | _ => false

namespace World

/-- The handles that have performed such an action, latest first. -/
def finishers (world : World) : List Handle :=
  world.history.filterMap fun
    | .performed handle action _ _ => if action.finishes then some handle else none
    | _ => none

/-- The rows that somebody may see: those of the file and those of the open transaction. -/
def visibleRows (world : World) : List AttemptRow :=
  world.attemptRows ++ world.writer.elim [] fun entry => entry.2.attemptRows

/-- Every result that can be seen has been asked for. -/
def Accounted (world : World) : Prop :=
  (∃ row ∈ world.visibleRows, row.Finished) → world.finishers ≠ []

end World

theorem mem_visibleRows_of_committed {world : World} {row : AttemptRow}
    (h : row ∈ world.attemptRows) : row ∈ world.visibleRows := List.mem_append_left _ h

theorem mem_visibleRows_of_pending {world : World} {holder : Handle} {pending : Database}
    {row : AttemptRow} (hwriter : world.writer = some (holder, pending))
    (h : row ∈ pending.attemptRows) : row ∈ world.visibleRows := by
  rw [World.visibleRows, hwriter]
  exact List.mem_append_right _ h

theorem visibleRows_of_sameStore {before after : World} (h : SameStore before after) :
    after.visibleRows = before.visibleRows := by
  rw [World.visibleRows, World.visibleRows, World.attemptRows, World.attemptRows, h.database,
    h.writer]

/-! ## What an action makes visible -/

section Actions

variable {image : Database → Bytes} {handle : Handle} {world : World} {row : AttemptRow}

/-- A statement whose rows are old ones or meet a condition. -/
def Brings (condition : AttemptRow → Prop) (statement : Database → Except Raised Database) : Prop :=
  ∀ database written, statement database = .ok written →
    ∀ row ∈ written.attemptRows, row ∈ database.attemptRows ∨ condition row

theorem visibleRows_write {condition : AttemptRow → Prop}
    {statement : Database → Except Raised Database} (hstatement : Brings condition statement)
    (h : row ∈ (world.write handle statement).2.visibleRows) :
    row ∈ world.visibleRows ∨ condition row := by
  rcases world.write_cases handle statement with
    ⟨pending, written, hheld, hwritten, hdone⟩ |
    ⟨_, database, written, hdatabase, hwritten, hdone⟩ | ⟨raised, hfailed⟩
  · rw [hdone] at h
    rcases List.mem_append.mp h with hcommitted | hpending
    · exact .inl (mem_visibleRows_of_committed hcommitted)
    · exact (hstatement pending written hwritten row hpending).imp_left
        (mem_visibleRows_of_pending hheld)
  · rw [hdone] at h
    rcases List.mem_append.mp h with hcommitted | hpending
    · apply (hstatement database written hwritten row hcommitted).imp_left
      intro hold
      apply mem_visibleRows_of_committed
      rw [World.attemptRows, hdatabase]
      exact hold
    · exact .inl (List.mem_append_right _ hpending)
  · rw [hfailed] at h
    exact .inl h

theorem brings_insertAttempt (state : String) :
    Brings (fun row => row.state = .text state) (·.insertAttempt state) := by
  intro database written h row hrow
  simp only [Database.insertAttempt, bind_eq_ok] at h
  obtain ⟨rows, hrows, h⟩ := h
  split at h
  next => cases h
  next =>
    cases h
    rcases List.mem_append.mp hrow with hold | hnew
    · exact .inl (Database.attemptsTable_eq_ok hrows ▸ hold)
    · rw [List.mem_singleton] at hnew
      exact .inr (by rw [hnew])

theorem brings_updateAttempt (update : Update) :
    Brings (fun row => ∃ old, row = update.apply old) (·.updateAttempt update) := by
  intro database written h row hrow
  simp only [Database.updateAttempt, bind_eq_ok] at h
  obtain ⟨rows, hrows, h⟩ := h
  cases h
  obtain ⟨old, hold, hupdated⟩ := List.mem_map.mp hrow
  by_cases hcurrent : old.current = true
  · rw [if_pos hcurrent] at hupdated
    exact .inr ⟨old, hupdated.symm⟩
  · rw [if_neg hcurrent] at hupdated
    exact .inl (hupdated ▸ Database.attemptsTable_eq_ok hrows ▸ hold)

theorem brings_same {statement : Database → Except Raised Database}
    (h : ∀ database written, statement database = .ok written →
      written.attemptRows = database.attemptRows) :
    Brings (fun _ => False) statement := by
  intro database written hwritten row hrow
  exact .inl (h database written hwritten ▸ hrow)

theorem visibleRows_create {present : Database → Bool} {statement : Database → Database}
    (hstatement : Brings (fun _ => False) fun database => .ok (statement database))
    (h : row ∈ (world.create handle present statement).2.visibleRows) :
    row ∈ world.visibleRows := by
  rcases world.create_cases handle present statement with
    ⟨_, _, _, hthere⟩ | ⟨_, _, _, hmade⟩ | ⟨_, hfailed⟩
  · rw [hthere] at h
    exact h
  · rw [hmade] at h
    exact (visibleRows_write hstatement h).resolve_right id
  · rw [hfailed] at h
    exact h

/-- Connecting makes a file without rows, or finds one. -/
theorem visibleRows_connect (h : row ∈ (perform image handle .connect world).2.visibleRows) :
    row ∈ world.visibleRows := by
  rcases List.mem_append.mp h with hcommitted | hpending
  · apply mem_visibleRows_of_committed
    rw [World.attemptRows] at hcommitted ⊢
    cases hdatabase : world.database with
    | none => simp [perform, hdatabase, Database.empty, Database.attemptRows] at hcommitted
    | some database => simpa [perform, hdatabase] using hcommitted
  · exact List.mem_append_right _ hpending

/-- A transaction begins with the rows of the file. -/
theorem visibleRows_begin (h : row ∈ (perform image handle .beginImmediate world).2.visibleRows) :
    row ∈ world.visibleRows := by
  rcases begin_cases image handle world with ⟨_, database, hdatabase, hbegun⟩ | ⟨raised, hfailed⟩
  · rw [hbegun] at h
    rcases List.mem_append.mp h with hcommitted | hpending
    · exact mem_visibleRows_of_committed hcommitted
    · apply mem_visibleRows_of_committed
      rw [World.attemptRows, hdatabase]
      exact hpending
  · rw [hfailed] at h
    exact h

/-- A commit publishes rows that its handle has seen. -/
theorem visibleRows_commit (h : row ∈ (perform image handle .commit world).2.visibleRows) :
    row ∈ world.visibleRows := by
  rcases commit_cases image handle world with ⟨pending, hheld, hdone⟩ | ⟨_, raised, hfailed⟩
  · rw [hdone] at h
    rcases List.mem_append.mp h with hcommitted | hpending
    · exact mem_visibleRows_of_pending hheld hcommitted
    · cases hpending
  · rw [hfailed] at h
    exact h

/-- A rollback leaves the rows of the file. -/
theorem visibleRows_rollback (h : row ∈ (perform image handle .rollback world).2.visibleRows) :
    row ∈ world.visibleRows := by
  rcases rollback_cases image handle world with ⟨pending, _, hdone⟩ | ⟨_, raised, hfailed⟩
  · rw [hdone] at h
    rcases List.mem_append.mp h with hcommitted | hpending
    · exact mem_visibleRows_of_committed hcommitted
    · cases hpending
  · rw [hfailed] at h
    exact h

/-- A row that becomes visible is an old one, has no result, or was asked for. -/
theorem visibleRows_perform {action : Action}
    (h : row ∈ (perform image handle action world).2.visibleRows) :
    row ∈ world.visibleRows ∨ ¬row.Finished ∨ action.finishes = true := by
  cases htouches : action.touches with
  | false =>
      have hsame := @perform_untouched image handle action htouches world
      exact .inl (visibleRows_of_sameStore hsame ▸ h)
  | true =>
      cases action with
      | connect => exact .inl (visibleRows_connect h)
      | createAttempts =>
          left
          apply visibleRows_create _ h
          intro database written hwritten row hrow
          cases hwritten
          cases hrow
      | createEvents =>
          left
          apply visibleRows_create _ h
          apply brings_same
          intro database written hwritten
          cases hwritten
          rfl
      | insertEvent inserted =>
          left
          apply (visibleRows_write (brings_same _) h).resolve_right id
          intro database written hwritten
          simp only [Database.insertEvent, bind_eq_ok] at hwritten
          obtain ⟨rows, _, hwritten⟩ := hwritten
          cases hwritten
          rfl
      | insertAttempt state =>
          apply (visibleRows_write (brings_insertAttempt state) h).imp_right
          intro hstate
          rw [Action.finishes, decide_eq_true_iff]
          by_cases hfinished : state ∈ finishedStates
          · exact .inr hfinished
          · left
            rintro ⟨finished, hmem, hsame⟩
            cases hstate.symm.trans hsame
            exact hfinished hmem
      | updateAttempt update =>
          apply (visibleRows_write (brings_updateAttempt update) h).imp_right
          rintro ⟨old, rfl⟩
          cases update with
          | consumed => exact .inl (by simp [Update.apply, AttemptRow.Finished, finishedStates])
          | result receiptDigest => exact .inr rfl
          | terminal => exact .inr rfl
      | beginImmediate => exact .inl (visibleRows_begin h)
      | commit => exact .inl (visibleRows_commit h)
      | rollback => exact .inl (visibleRows_rollback h)
      | _ => cases htouches

end Actions

/-! ## Results are accounted for -/

section Accounted

variable {image : Database → Bytes} {handle : Handle} {before after : World}

theorem Acts.finishers {action : Action} {reply : Reply action}
    (h : Acts image handle before action reply after) :
    after.finishers = if action.finishes then handle :: before.finishers else before.finishers := by
  rw [World.finishers, h.history, List.filterMap_cons]
  dsimp only
  cases action.finishes <;> rfl

theorem Acts.accounted {action : Action} {reply : Reply action}
    (h : Acts image handle before action reply after) (haccounted : before.Accounted) :
    after.Accounted := by
  rintro ⟨row, hrow, hfinished⟩
  rw [h.finishers]
  cases hfinishes : action.finishes with
  | true => simp
  | false =>
      apply haccounted
      refine ⟨row, ?_, hfinished⟩
      cases h with
      | @performed _ world hperform =>
          have hvisible : row ∈ (perform image handle action before).2.visibleRows := by
            rw [hperform]
            exact hrow
          rcases visibleRows_perform hvisible with hold | hunfinished | hasked
          · exact hold
          · exact absurd hfinished hunfinished
          · rw [hfinishes] at hasked
            cases hasked
      | @faulted world hdamages _ =>
          rw [← visibleRows_of_sameStore (sameStore_of_damages hdamages)]
          exact hrow

theorem accounted_release (haccounted : before.Accounted) :
    (before.release handle).Accounted := by
  rcases release_cases before handle with ⟨⟨pending, hheld⟩, hrelease⟩ | ⟨_, hrelease⟩
  · rw [hrelease]
    rintro ⟨row, hrow, hfinished⟩
    apply haccounted
    refine ⟨row, ?_, hfinished⟩
    rcases List.mem_append.mp hrow with hcommitted | hpending
    · exact mem_visibleRows_of_committed hcommitted
    · cases hpending
  · rw [hrelease]
    exact haccounted

end Accounted

end Oasi.Broker
