import Oasi.Broker.Ledger
import Oasi.Foundation.Interference

/-! # The stages of a seal

`_seal` reads the database, writes its digest to the temporary file and replaces
the seal by it. Whoever shares the ledger, a proof about `_seal` says what holds
at each of its stages and after a failure, and what each action does to that.
-/

namespace Oasi.Broker

/-- How far a seal has come, with what it has read and where it writes. -/
inductive Stage where
  | begun
  | read (bytes : Bytes)
  | opened (bytes : Bytes) (inode : Nat)
  | written (bytes : Bytes) (inode : Nat)
  | replaced

namespace Stage

/-- The actions of each stage. -/
inductive Expects : Stage → Action → Prop where
  | checkpoint : Expects begun (.pragma "PRAGMA wal_checkpoint(FULL)")
  | readDatabase : Expects begun .readDatabase
  | openTemporary (bytes : Bytes) : Expects (read bytes) .openTemporary
  | writeTemporary (bytes : Bytes) (inode : Nat) :
      Expects (opened bytes inode) (.writeTemporary inode (hexdigest bytes ++ "\n"))
  | syncTemporary (bytes : Bytes) (inode : Nat) : Expects (written bytes inode) .syncTemporary
  | replaceSeal (bytes : Bytes) (inode : Nat) : Expects (written bytes inode) .replaceSeal
  | openDirectory : Expects replaced .openDirectory
  | syncDirectory : Expects replaced .syncDirectory
  | closeDirectory : Expects replaced .closeDirectory

/-- The stage after an action that replied normally. -/
def next : Stage → (action : Action) → Result action → Stage
  | _, .readDatabase, bytes => read bytes
  | read bytes, .openTemporary, inode => opened bytes inode
  | opened bytes inode, .writeTemporary _ _, _ => written bytes inode
  | _, .replaceSeal, _ => replaced
  | stage, _, _ => stage

end Stage

/-- What holds at each stage of a seal and after a failure. -/
structure Outline (sharing : Interference Handle World Action Reply) (handle : Handle) where
  At : Stage → World → Prop
  Failed : World → Prop
  stays : ∀ {stage before after}, sharing.Later handle before after → At stage before →
    At stage after
  fails : ∀ {before after}, sharing.Later handle before after → Failed before → Failed after
  acts : ∀ {stage action before reply after}, Stage.Expects stage action →
    sharing.Invariant before → At stage before → sharing.Performs handle before action reply after →
    sharing.Keeps handle before after ∧ match reply with
      | .ok value => At (stage.next action value) after
      | .error _ => Failed after
  closes : ∀ {before reply after}, sharing.Invariant before → Failed before →
    sharing.Performs handle before .closeDirectory reply after →
    sharing.Keeps handle before after ∧ Failed after

section Sealing

variable {sharing : Interference Handle World Action Reply} {handle : Handle}

/-- What a seal ends with. -/
def Outline.Ends (outline : Outline sharing handle) (outcome : Except Raised Unit)
    (world : World) : Prop :=
  match outcome with
  | .ok _ => outline.At .replaced world
  | .error _ => outline.Failed world

variable (outline : Outline sharing handle)

/-- One action of the seal. -/
theorem Outline.safe_execute {stage : Stage} {action : Action} {world : World}
    (hexpects : stage.Expects action) (hat : outline.At stage world) :
    sharing.Safe handle (fun reply after => match reply with
      | .ok value => outline.At (stage.next action value) after
      | .error _ => outline.Failed after) (execute action).run world := by
  apply Interference.safe_execute
  intro middle hmiddle reply after hperforms
  obtain ⟨hkeeps, hreply⟩ :=
    outline.acts hexpects hmiddle.invariant (outline.stays hmiddle hat) hperforms
  refine ⟨hkeeps, ?_⟩
  intro last hlast
  cases reply with
  | ok value => exact outline.stays hlast hreply
  | error raised => exact outline.fails hlast hreply

/-- One action of the seal and the rest of the seal after it. -/
theorem Outline.safe_bind {stage : Stage} {action : Action}
    {rest : Result action → LedgerCall Unit} {world : World} (hexpects : stage.Expects action)
    (hat : outline.At stage world)
    (hrest : ∀ value after, outline.At (stage.next action value) after →
      sharing.Safe handle outline.Ends (rest value).run after) :
    sharing.Safe handle outline.Ends (execute action >>= rest).run world := by
  apply Interference.safe_call_bind
  apply (outline.safe_execute hexpects hat).imp
  intro reply after _ hreply
  cases reply with
  | ok value => exact hrest value after hreply
  | error raised => exact fun last hlast => outline.fails hlast hreply

theorem Outline.safe_last {world : World} (hat : outline.At .replaced world) :
    sharing.Safe handle outline.Ends (execute .closeDirectory).run world := by
  apply (outline.safe_execute .closeDirectory hat).imp
  intro reply after _ hreply
  cases reply with
  | ok value => exact hreply
  | error raised => exact hreply

/-- The directory is closed when it could not be synced, too. -/
theorem Outline.safe_failed {raised : Raised} {world : World} (hfailed : outline.Failed world) :
    sharing.Safe handle outline.Ends
      (execute .closeDirectory >>= fun _ => (throw raised : LedgerCall Unit)).run world := by
  apply Interference.safe_call_bind
  apply Interference.safe_execute
  intro middle hmiddle reply after hperforms
  obtain ⟨hkeeps, hafter⟩ :=
    outline.closes hmiddle.invariant (outline.fails hmiddle hfailed) hperforms
  refine ⟨hkeeps, ?_⟩
  intro last hlast
  have hend := outline.fails hlast hafter
  cases reply with
  | ok value => exact fun final hfinal => outline.fails hfinal hend
  | error error => exact fun final hfinal => outline.fails hfinal hend

/-- A seal ends as its outline says. -/
theorem Outline.safe {world : World} (hat : outline.At .begun world) :
    sharing.Safe handle outline.Ends (Ledger._seal).run world := by
  unfold Ledger._seal
  apply outline.safe_bind .checkpoint hat
  intro _ world hat
  apply outline.safe_bind .readDatabase hat
  intro bytes world hat
  apply outline.safe_bind (.openTemporary bytes) hat
  intro inode world hat
  apply outline.safe_bind (.writeTemporary bytes inode) hat
  intro _ world hat
  apply outline.safe_bind (.syncTemporary bytes inode) hat
  intro _ world hat
  apply outline.safe_bind (.replaceSeal bytes inode) hat
  intro _ world hat
  apply outline.safe_bind .openDirectory hat
  intro _ world hat
  apply Interference.safe_call_bind
  apply Interference.safe_tryCatch
  apply (outline.safe_execute .syncDirectory hat).imp
  intro reply after _ hreply
  cases reply with
  | ok value => exact fun last hlast => outline.safe_last (outline.stays hlast hreply)
  | error raised =>
      apply (outline.safe_failed hreply).imp
      intro outcome after _ hends
      cases outcome with
      | ok value => exact outline.safe_last hends
      | error error => exact fun last hlast => outline.fails hlast hends

end Sealing

end Oasi.Broker
