import Oasi.Broker.Disk
import Oasi.Foundation.Checked

/-! # The broker ledger

The methods of `Ledger` as programs over the actions on its files. Each method
that changes the attempt is one guarded transaction, followed by a new seal over
the whole database file; whatever it raises, it tries to roll back first.
-/

namespace Oasi.Broker

abbrev LedgerCall := Call Action Result Raised

def execute (action : Action) : LedgerCall (Result action) := Call.execute action

def raiseIf (condition : Prop) [Decidable condition] (raised : Raised) : LedgerCall Unit :=
  if condition then throw raised else pure ()

def orRaise {Value : Type} : Except Raised Value → LedgerCall Value
  | .ok value => pure value
  | .error raised => throw raised

def runIf (condition : Bool) (call : LedgerCall Unit) : LedgerCall Unit :=
  if condition then call else pure ()

/-- White space that `str.strip` removes from ASCII text. -/
def isSpace (char : Char) : Bool :=
  char == ' ' || (9 ≤ char.toNat && char.toNat ≤ 13) || (28 ≤ char.toNat && char.toNat ≤ 31)

def strip (text : String) : String :=
  String.ofList ((text.toList.dropWhile isSpace).reverse.dropWhile isSpace).reverse

namespace Ledger

def _seal : LedgerCall Unit := do
  execute (.pragma "PRAGMA wal_checkpoint(FULL)")
  let digest := hexdigest (← execute .readDatabase)
  let inode ← execute .openTemporary
  execute (.writeTemporary inode (digest ++ "\n"))
  execute .syncTemporary
  execute .replaceSeal
  execute .openDirectory
  try
    execute .syncDirectory
  catch raised =>
    execute .closeDirectory
    throw raised
  execute .closeDirectory

/-- The checks of `__init__` on a path that exists. -/
def checkSeal : LedgerCall Unit := do
  let isFile : Bool ← execute .sealIsFile
  raiseIf (isFile = false) (.protocol "existing ledger has no seal")
  let expected := strip (← execute .readSeal)
  let actual := hexdigest (← execute .readDatabase)
  raiseIf (expected ≠ actual) (.protocol "ledger seal mismatch")

/-- `Ledger.__init__` -/
def construct : LedgerCall Unit := do
  let existed : Bool ← execute .pathExists
  runIf existed checkSeal
  execute .connect
  execute (.pragma "PRAGMA journal_mode=DELETE")
  execute (.pragma "PRAGMA synchronous=FULL")
  execute (.pragma "PRAGMA foreign_keys=ON")
  execute .createAttempts
  execute .createEvents
  runIf (!existed) _seal

def _appendEvent (event : String) : LedgerCall Unit := do
  let last ← execute .selectLastHash
  let previous := last.getD (.text zeroHash)
  let row ← orRaise (eventAfter previous event)
  execute (.insertEvent row)

/-- `BEGIN IMMEDIATE`, the statements, `COMMIT` and a new seal; the transaction
is rolled back when any of them raises. -/
def transaction (statements : LedgerCall Unit) : LedgerCall Unit := do
  execute .beginImmediate
  try
    statements
    execute .commit
    _seal
  catch raised =>
    execute .rollback
    throw raised

def prepare : LedgerCall Unit := transaction do
  execute (.insertAttempt "PREPARED")
  _appendEvent "PREPARED"

def consume : LedgerCall Unit := transaction do
  let row ← execute .selectAttempt
  raiseIf (row.map (fun row => (row.state, row.dispatchCount)) ≠
      some (.text "PREPARED", .integer 0)) (.protocol "attempt is not uniquely prepared")
  execute (.updateAttempt .consumed)
  _appendEvent "CONSUMED_BEFORE_FIXTURE_NOOP"

def recordResult (receiptDigest : String) : LedgerCall Unit := transaction do
  let row ← execute .selectAttempt
  raiseIf (row.map (fun row => (row.state, row.dispatchCount)) ≠
      some (.text "CONSUMED", .integer 1)) (.protocol "result without consumed one-shot")
  execute (.updateAttempt (.result receiptDigest))
  _appendEvent "FIXTURE_NOOP_RESULT"

/-- `row is None or row[0] != "RESULT" or row[1] != 1 or not row[2]` -/
def lacksResult (row : Option AttemptRow) : Bool :=
  match row with
  | none => true
  | some row => row.state != .text "RESULT" || row.dispatchCount != .integer 1 ||
      row.receiptDigest.elim true (·.isFalsy)

def terminal : LedgerCall Unit := transaction do
  let row ← execute .selectAttempt
  raiseIf (lacksResult row = true) (.protocol "terminal without durable result")
  execute (.updateAttempt .terminal)
  _appendEvent "TERMINAL"

def state : LedgerCall String := do
  let row ← execute .selectAttempt
  return row.elim "ABSENT" (·.state.str)

/-- The table of `recovery_action`. -/
def recoveryActions : List (String × String) :=
  [("ABSENT", "NO_ACTION"),
    ("PREPARED", "ABORT_WITHOUT_EFFECT"),
    ("CONSUMED", "BLOCK_NO_REDISPATCH"),
    ("RESULT", "EMIT_TERMINAL_ONLY"),
    ("TERMINAL", "COMPLETE_NO_REDISPATCH")]

def recoveryAction : LedgerCall String := do
  let current ← state
  return (recoveryActions.lookup current).getD "FAIL_CLOSED"

/-- The loop of `verify` over the events. -/
def checkChain : StoredValue → List EventRow → Except Raised Unit
  | _, [] => .ok ()
  | previous, row :: rest => do
      let expected := hexdigest (← canonicalJson
        ⟨row.generation, row.context, row.attempt, row.event, previous⟩)
      failIf (row.previousHash ≠ previous ∨ row.recordHash ≠ .text expected)
        (.protocol "ledger hash chain")
      checkChain row.recordHash rest

/-- `row is not None and (row[1] < 0 or row[1] > 1)` -/
def dispatchedTwice (row : Option AttemptRow) : Except Raised Bool :=
  row.elim (.ok false) (·.dispatchCount.outOfRange)

def verify : LedgerCall Unit := do
  let integrity : String ← execute .integrityCheck
  raiseIf (integrity ≠ "ok") (.protocol "sqlite integrity")
  let rows ← execute .selectEvents
  orRaise (checkChain (.text zeroHash) rows)
  let row ← execute .selectAttempt
  let twice ← orRaise (dispatchedTwice row)
  raiseIf (twice = true) (.protocol "double effect")

end Ledger

def Operation.call : Operation → LedgerCall Unit
  | construct => Ledger.construct
  | prepare => Ledger.prepare
  | consume => Ledger.consume
  | recordResult receiptDigest => Ledger.recordResult receiptDigest
  | terminal => Ledger.terminal

/-- What a call does when nothing interferes with it. -/
def alone {Value : Type} (image : Database → Bytes) (handle : Handle)
    (call : LedgerCall Value) (world : World) : Except Raised Value × World :=
  call.run.run (perform image handle) world

/-! ## The actions of the methods -/

theorem uses_execute {allowed : Action → Prop} {action : Action} (h : allowed action) :
    (execute action).run.Uses allowed := Call.uses_execute h

theorem uses_raiseIf {allowed : Action → Prop} {condition : Prop} [Decidable condition]
    {raised : Raised} : (raiseIf condition raised).run.Uses allowed := by
  unfold raiseIf
  split <;> exact trivial

theorem uses_orRaise {Value : Type} {allowed : Action → Prop} (outcome : Except Raised Value) :
    (orRaise outcome).run.Uses allowed := by
  cases outcome <;> exact trivial

theorem uses_runIf {allowed : Action → Prop} {condition : Bool} {call : LedgerCall Unit}
    (h : call.run.Uses allowed) : (runIf condition call).run.Uses allowed := by
  unfold runIf
  split
  · exact h
  · exact trivial

/-- The actions of `_seal`. -/
def Action.seals : Action → Bool
  | .pragma text => text == "PRAGMA wal_checkpoint(FULL)"
  | .readDatabase | .openTemporary | .writeTemporary _ _ | .syncTemporary | .replaceSeal
  | .openDirectory | .syncDirectory | .closeDirectory => true
  | _ => false

/-- The actions of the checks on an existing path. -/
def Action.checks : Action → Bool
  | .sealIsFile | .readSeal | .readDatabase => true
  | _ => false

/-- The other actions of the constructor. -/
def Action.constructs : Action → Bool
  | .pathExists | .connect | .pragma _ | .createAttempts | .createEvents => true
  | _ => false

theorem seal_uses : (Ledger._seal).run.Uses (·.seals = true) := by
  unfold Ledger._seal
  repeat' with_reducible first
    | apply uses_execute
    | refine Call.uses_tryCatch ?_ fun _ => ?_
    | refine Call.uses_bind ?_ fun _ => ?_
  all_goals first | rfl | exact trivial

theorem checkSeal_uses : (Ledger.checkSeal).run.Uses (·.checks = true) := by
  unfold Ledger.checkSeal
  repeat' with_reducible first
    | apply uses_execute
    | apply uses_raiseIf
    | refine Call.uses_bind ?_ fun _ => ?_
  all_goals rfl

theorem construct_uses :
    (Ledger.construct).run.Uses fun action =>
      action.constructs || action.checks || action.seals := by
  have hcheck := checkSeal_uses.imp fun action (haction : action.checks = true) => show
    (action.constructs || action.checks || action.seals) = true by simp [haction]
  have hseal := seal_uses.imp fun action (haction : action.seals = true) => show
    (action.constructs || action.checks || action.seals) = true by simp [haction]
  unfold Ledger.construct
  repeat' with_reducible first
    | apply uses_execute
    | apply uses_runIf
    | refine Call.uses_bind ?_ fun _ => ?_
  all_goals first | rfl | exact hcheck | exact hseal

end Oasi.Broker
