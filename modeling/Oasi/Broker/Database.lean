import Oasi.Broker.Values

/-! # The tables of the broker ledger

The broker keeps one row per attempt and a hash-linked table of events in an
SQLite database. The statements of the ledger are functions on the two tables.
A table may be missing, its columns may hold values of any kind, and rows stand in the
order of their sequence numbers.
-/

namespace Oasi.Broker

def generation : Nat := 152
def attempt : Nat := 1

/-- `CONTEXT.hex()` -/
def context : String := hexdigest (utf8 "OASI:S1:FIXTURE:CTX")

/-- The hash before the first event: `"0" * 64`. -/
def zeroHash : String := String.ofList (List.replicate 64 '0')

/-! ## Canonical JSON -/

/-- What the hash of an event covers. -/
structure EventRecord where
  generation : StoredValue
  context : StoredValue
  attempt : StoredValue
  event : StoredValue
  previousHash : StoredValue

/-- An object with these five values, its keys sorted and without spaces. -/
def jsonObject (attempt context event generation previousHash : String) : Bytes :=
  utf8 ("\x7b\"attempt\":" ++ attempt ++ ",\"context\":" ++ context ++ ",\"event\":" ++ event ++
    ",\"generation\":" ++ generation ++ ",\"previous_hash\":" ++ previousHash ++ "\x7d")

def canonicalJson (record : EventRecord) : Except Raised Bytes := do
  let attempt ← record.attempt.json
  let context ← record.context.json
  let event ← record.event.json
  let generation ← record.generation.json
  let previousHash ← record.previousHash.json
  return jsonObject attempt context event generation previousHash

/-! ## Rows -/

/-- A row of attempts; its receipt digest may be NULL. -/
structure AttemptRow where
  generation : StoredValue
  context : StoredValue
  attempt : StoredValue
  state : StoredValue
  dispatchCount : StoredValue
  receiptDigest : Option StoredValue
  deriving DecidableEq, Repr

structure EventRow where
  generation : StoredValue
  context : StoredValue
  attempt : StoredValue
  event : StoredValue
  previousHash : StoredValue
  recordHash : StoredValue
  deriving DecidableEq, Repr

/-- A database file with the number of commits that made it. -/
structure Database where
  attempts : Option (List AttemptRow)
  events : Option (List EventRow)
  changes : Nat
  deriving DecidableEq, Repr

/-- `WHERE generation=? AND context=? AND attempt=?` -/
def AttemptRow.current (row : AttemptRow) : Bool :=
  row.generation == .integer Broker.generation && row.context == .text Broker.context &&
    row.attempt == .integer Broker.attempt

/-- The three `UPDATE attempts SET` statements. -/
inductive Update where
  /-- `state='CONSUMED',dispatch_count=1` -/
  | consumed
  /-- `state='RESULT',receipt_digest=?` -/
  | result (receiptDigest : String)
  /-- `state='TERMINAL'` -/
  | terminal
  deriving DecidableEq, Repr

def Update.apply (row : AttemptRow) : Update → AttemptRow
  | consumed => { row with state := .text "CONSUMED", dispatchCount := .integer 1 }
  | result receiptDigest =>
      { row with state := .text "RESULT", receiptDigest := some (.text receiptDigest) }
  | terminal => { row with state := .text "TERMINAL" }

namespace Database

/-- The file `sqlite3.connect` makes. -/
def empty : Database := ⟨none, none, 0⟩

def attemptsTable (database : Database) : Except Raised (List AttemptRow) :=
  match database.attempts with
  | some rows => .ok rows
  | none => .error (.operational "no such table: attempts")

def eventsTable (database : Database) : Except Raised (List EventRow) :=
  match database.events with
  | some rows => .ok rows
  | none => .error (.operational "no such table: events")

def selectAttempt (database : Database) : Except Raised (Option AttemptRow) := do
  let rows ← database.attemptsTable
  return rows.find? (·.current)

/-- The row stands under the primary key of the attempt. -/
def insertAttempt (database : Database) (state : String) : Except Raised Database := do
  let rows ← database.attemptsTable
  if rows.any (·.current) then .error .integrity
  else
    let row : AttemptRow :=
      ⟨.integer generation, .text context, .integer attempt, .text state, .integer 0, none⟩
    .ok { database with attempts := some (rows ++ [row]) }

def updateAttempt (database : Database) (update : Update) : Except Raised Database := do
  let rows ← database.attemptsTable
  let updated := rows.map fun row => if row.current then update.apply row else row
  return { database with attempts := some updated }

/-- `SELECT record_hash FROM events ORDER BY sequence DESC LIMIT 1` -/
def selectLastHash (database : Database) : Except Raised (Option StoredValue) := do
  let rows ← database.eventsTable
  return rows.getLast?.map (·.recordHash)

def insertEvent (database : Database) (row : EventRow) : Except Raised Database := do
  let rows ← database.eventsTable
  return { database with events := some (rows ++ [row]) }

/-- Both tables are there. -/
structure HasTables (database : Database) : Prop where
  attempts : database.attempts.isSome
  events : database.events.isSome

/-- The rows of the attempts table, if there is one. -/
def attemptRows (database : Database) : List AttemptRow := database.attempts.getD []

def eventRows (database : Database) : List EventRow := database.events.getD []

end Database

/-! ## What the tables say -/

/-- The row `_append_event` inserts after a hash. -/
def eventAfter (previous : StoredValue) (event : String) : Except Raised EventRow := do
  let digest := hexdigest (← canonicalJson
    ⟨.integer generation, .text context, .integer attempt, .text event, previous⟩)
  return {
    generation := .integer generation
    context := .text context
    attempt := .integer attempt
    event := .text event
    previousHash := previous
    recordHash := .text digest }

/-- The hash of the broker's event after the one with this hash. -/
def hashAfter (previous event : String) : String :=
  hexdigest (jsonObject attempt.repr (jsonString context) (jsonString event) generation.repr
    (jsonString previous))

/-- The broker's event after the one with this hash. -/
def linkedEvent (previous event : String) : EventRow where
  generation := .integer generation
  context := .text context
  attempt := .integer attempt
  event := .text event
  previousHash := .text previous
  recordHash := .text (hashAfter previous event)

/-- After a text an event can be appended. -/
theorem eventAfter_text (previous event : String) :
    eventAfter (.text previous) event = .ok (linkedEvent previous event) := rfl

/-- The events of these names, each linked to the one before it. -/
def chainFrom : String → List String → List EventRow
  | _, [] => []
  | previous, event :: rest =>
      linkedEvent previous event :: chainFrom (hashAfter previous event) rest

/-- The hash of the last of these events, or else the one before them. -/
def hashFrom (previous : String) (events : List String) : String := events.foldl hashAfter previous

/-- The life of the attempt. -/
inductive Phase where
  | absent
  | prepared
  | consumed
  | result (receiptDigest : String)
  | terminal (receiptDigest : String)
  deriving DecidableEq, Repr

namespace Phase

def state : Phase → String
  | absent => "ABSENT"
  | prepared => "PREPARED"
  | consumed => "CONSUMED"
  | result _ => "RESULT"
  | terminal _ => "TERMINAL"

def dispatchCount : Phase → Nat
  | absent | prepared => 0
  | consumed | result _ | terminal _ => 1

def receiptDigest : Phase → Option String
  | absent | prepared | consumed => none
  | result receiptDigest | terminal receiptDigest => some receiptDigest

def row? : Phase → Option AttemptRow
  | absent => none
  | phase => some ⟨.integer generation, .text context, .integer attempt, .text phase.state,
      .integer phase.dispatchCount, phase.receiptDigest.map .text⟩

/-- The names of the events up to this phase. -/
def milestones : Phase → List String
  | absent => []
  | prepared => ["PREPARED"]
  | consumed => ["PREPARED", "CONSUMED_BEFORE_FIXTURE_NOOP"]
  | result _ => ["PREPARED", "CONSUMED_BEFORE_FIXTURE_NOOP", "FIXTURE_NOOP_RESULT"]
  | terminal _ =>
      ["PREPARED", "CONSUMED_BEFORE_FIXTURE_NOOP", "FIXTURE_NOOP_RESULT", "TERMINAL"]

end Phase

/-- The tables hold this phase and nothing else. -/
structure Database.Holds (database : Database) (phase : Phase) : Prop where
  attempts : database.attemptRows = phase.row?.toList
  events : database.eventRows = chainFrom zeroHash phase.milestones

theorem chainFrom_append (previous : String) (first second : List String) :
    chainFrom previous (first ++ second) =
      chainFrom previous first ++ chainFrom (hashFrom previous first) second := by
  induction first generalizing previous with
  | nil => rfl
  | cons event rest ih => rw [List.cons_append, chainFrom, ih, chainFrom, List.cons_append]; rfl

/-- The hash that the next event is linked to. -/
theorem getLast?_chainFrom (previous : String) (events : List String) :
    ((chainFrom previous events).getLast?.map (·.recordHash)).getD (.text previous) =
      .text (hashFrom previous events) := by
  induction events generalizing previous with
  | nil => rfl
  | cons event rest ih =>
      rw [chainFrom, hashFrom, List.foldl_cons, ← hashFrom, ← ih (hashAfter previous event)]
      cases chainFrom (hashAfter previous event) rest with
      | nil => rfl
      | cons head tail => rw [List.getLast?_cons_cons]; rfl

@[simp] theorem current_new (state dispatchCount : StoredValue)
    (receiptDigest : Option StoredValue) :
    AttemptRow.current ⟨.integer generation, .text context, .integer attempt, state, dispatchCount,
      receiptDigest⟩ = true := by
  simp [AttemptRow.current]

namespace Phase

@[simp] theorem find?_row? (phase : Phase) :
    phase.row?.toList.find? (·.current) = phase.row? := by
  cases phase <;> simp [row?]

theorem any_row? (phase : Phase) : phase.row?.toList.any (·.current) = phase.row?.isSome := by
  cases phase <;> simp [row?]

end Phase

namespace Database

theorem attemptsTable_iff {database : Database} {rows : List AttemptRow} :
    database.attemptsTable = .ok rows ↔ database.attempts = some rows := by
  rw [attemptsTable]
  cases database.attempts <;> simp

theorem eventsTable_iff {database : Database} {rows : List EventRow} :
    database.eventsTable = .ok rows ↔ database.events = some rows := by
  rw [eventsTable]
  cases database.events <;> simp

theorem attemptsTable_eq_ok {database : Database} {rows : List AttemptRow}
    (h : database.attemptsTable = .ok rows) : rows = database.attemptRows := by
  rw [attemptRows, attemptsTable_iff.mp h, Option.getD_some]

theorem eventsTable_eq_ok {database : Database} {rows : List EventRow}
    (h : database.eventsTable = .ok rows) : rows = database.eventRows := by
  rw [eventRows, eventsTable_iff.mp h, Option.getD_some]

end Database

end Oasi.Broker
