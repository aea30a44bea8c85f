import Oasi.Broker.Interplay

/-! # What a transaction does to the tables

Inside its transaction a handle works on its own copy of the tables. The
statements of each method turn the tables of one phase into the tables of the
phase that the method leads to, or raise; the file stays as it is.
-/

namespace Oasi.Broker

/-- The phase a method leads to, if its guard lets it pass. -/
def Operation.next : Operation → Phase → Option Phase
  | prepare, .absent => some .prepared
  | consume, .prepared => some .consumed
  | recordResult receiptDigest, .consumed => some (.result receiptDigest)
  | terminal, .result receiptDigest =>
      if receiptDigest.isEmpty then none else some (.terminal receiptDigest)
  | _, _ => none

/-- The dispatch count rises by one with the consumption and never else. -/
theorem dispatchCount_next {operation : Operation} {phase next : Phase}
    (h : operation.next phase = some next) :
    next.dispatchCount = phase.dispatchCount + if next = .consumed then 1 else 0 := by
  unfold Operation.next at h
  split at h
  any_goals cases h
  any_goals rfl
  split at h
  · cases h
  · cases h
    rfl

namespace Database

/-! ## Rows of a phase -/

/-- The row that is selected is that of the phase. -/
theorem selectAttempt_eq {database : Database} {phase : Phase} {row : Option AttemptRow}
    (hholds : database.Holds phase) (h : database.selectAttempt = .ok row) : row = phase.row? := by
  rw [selectAttempt, bind_eq_ok] at h
  obtain ⟨rows, hrows, h⟩ := h
  rw [attemptsTable_eq_ok hrows, hholds.attempts] at h
  cases h
  exact phase.find?_row?

/-- An attempt is inserted where there is none, as prepared. -/
theorem insertAttempt_eq {database written : Database} {phase : Phase}
    (hholds : database.Holds phase) (h : database.insertAttempt "PREPARED" = .ok written) :
    phase = .absent ∧ written.attemptRows = Phase.prepared.row?.toList ∧
      written.eventRows = database.eventRows := by
  rw [insertAttempt, bind_eq_ok] at h
  obtain ⟨rows, hrows, h⟩ := h
  rw [attemptsTable_eq_ok hrows, hholds.attempts, Phase.any_row?] at h
  cases phase with
  | absent =>
      cases h
      exact ⟨rfl, rfl, rfl⟩
  | _ => cases h

/-- The row is there already. -/
theorem insertAttempt_refuses {database : Database} {phase : Phase} {raised : Raised}
    (htable : database.attempts.isSome) (hholds : database.Holds phase)
    (h : database.insertAttempt "PREPARED" = .error raised) :
    Operation.next .prepare phase = none := by
  obtain ⟨rows, hrows⟩ := Option.isSome_iff_exists.mp htable
  have hattempts := hholds.attempts
  rw [attemptRows, hrows, Option.getD_some] at hattempts
  rw [insertAttempt, attemptsTable, hrows, hattempts] at h
  cases phase with
  | absent => cases h
  | _ => rfl

/-- A select needs its table only. -/
theorem selectAttempt_isOk {database : Database} (htable : database.attempts.isSome) :
    ¬∃ raised, database.selectAttempt = .error raised := by
  obtain ⟨rows, hrows⟩ := Option.isSome_iff_exists.mp htable
  rw [selectAttempt, attemptsTable, hrows]
  rintro ⟨raised, h⟩
  cases h

/-- The last hash needs its table only. -/
theorem selectLastHash_isOk {database : Database} (htable : database.events.isSome) :
    ¬∃ raised, database.selectLastHash = .error raised := by
  obtain ⟨rows, hrows⟩ := Option.isSome_iff_exists.mp htable
  rw [selectLastHash, eventsTable, hrows]
  rintro ⟨raised, h⟩
  cases h

/-- An update needs its table only. -/
theorem updateAttempt_isOk {database : Database} {update : Update}
    (htable : database.attempts.isSome) :
    ¬∃ raised, database.updateAttempt update = .error raised := by
  obtain ⟨rows, hrows⟩ := Option.isSome_iff_exists.mp htable
  rw [updateAttempt, attemptsTable, hrows]
  rintro ⟨raised, h⟩
  cases h

/-- An insert of an event needs its table only. -/
theorem insertEvent_isOk {database : Database} {row : EventRow}
    (htable : database.events.isSome) : ¬∃ raised, database.insertEvent row = .error raised := by
  obtain ⟨rows, hrows⟩ := Option.isSome_iff_exists.mp htable
  rw [insertEvent, eventsTable, hrows]
  rintro ⟨raised, h⟩
  cases h

/-- An update changes the one row of the attempt. -/
theorem updateAttempt_eq {database written : Database} {update : Update} {row : AttemptRow}
    (hrows : database.attemptRows = [row]) (hcurrent : row.current = true)
    (h : database.updateAttempt update = .ok written) :
    written.attemptRows = [update.apply row] ∧ written.eventRows = database.eventRows := by
  rw [updateAttempt, bind_eq_ok] at h
  obtain ⟨rows, htable, h⟩ := h
  rw [attemptsTable_eq_ok htable, hrows] at h
  cases h
  constructor
  · simp only [attemptRows, List.map_cons, List.map_nil, hcurrent, if_true, Option.getD_some]
  · rfl

/-- The next event is linked to the last one of the chain. -/
theorem eventAfter_last {database : Database} {milestones : List String}
    {last : Option StoredValue} (event : String)
    (hevents : database.eventRows = chainFrom zeroHash milestones)
    (hlast : database.selectLastHash = .ok last) :
    eventAfter (last.getD (.text zeroHash)) event =
      .ok (linkedEvent (hashFrom zeroHash milestones) event) := by
  rw [selectLastHash, bind_eq_ok] at hlast
  obtain ⟨rows, hrows, hlast⟩ := hlast
  rw [eventsTable_eq_ok hrows, hevents] at hlast
  cases hlast
  rw [getLast?_chainFrom, eventAfter_text]

/-- An event is appended to the chain. -/
theorem appendEvent_eq {database written : Database} {milestones : List String} {event : String}
    (hevents : database.eventRows = chainFrom zeroHash milestones)
    (h : database.insertEvent (linkedEvent (hashFrom zeroHash milestones) event) = .ok written) :
    written.attemptRows = database.attemptRows ∧
      written.eventRows = chainFrom zeroHash (milestones ++ [event]) := by
  rw [insertEvent, bind_eq_ok] at h
  obtain ⟨table, htable, h⟩ := h
  rw [eventsTable_eq_ok htable, hevents] at h
  cases h
  refine ⟨rfl, ?_⟩
  rw [chainFrom_append]
  rfl

end Database

/-! ## Actions inside a transaction -/

/-- The handle holds a transaction over this file and sees these tables. -/
structure World.Open (world : World) (handle : Handle) (committed pending : Database) : Prop where
  database : world.database = some committed
  writer : world.writer = some (handle, pending)

/-- The actions of the statements of a transaction. -/
def Action.inTransaction : Action → Bool
  | .selectAttempt | .selectLastHash | .insertAttempt _ | .updateAttempt _ | .insertEvent _ => true
  | _ => false

section Acting

variable {image : Database → Bytes} {handle : Handle} {before after : World}
  {committed pending : Database}

/-- Inside its transaction a handle sees its own copy. -/
theorem view_of_open (hopen : before.Open handle committed pending) :
    before.view handle = .ok pending := by
  simp only [World.view, hopen.writer, if_true]

/-- Inside its transaction a handle reads its own copy. -/
theorem read_of_open {Value : Type} (hopen : before.Open handle committed pending)
    (statement : Database → Except Raised Value) :
    before.read handle statement = statement pending := by
  unfold World.read
  rw [view_of_open hopen]

/-- What is recorded leaves the transaction open. -/
theorem open_record {world : World} {happening : Happening}
    (hopen : world.Open handle committed pending) :
    (world.record happening).Open handle committed pending := ⟨hopen.database, hopen.writer⟩

/-- A statement that raises leaves the transaction as it is. -/
theorem open_of_damages {action : Action} (hopen : before.Open handle committed pending)
    (h : Damages action before after) : after.Open handle committed pending := by
  have hsame := sameStore_of_damages h
  exact ⟨hsame.database.trans hopen.database, hsame.writer.trans hopen.writer⟩

/-- Actions happen as they work, or else with an error of the environment. -/
def Happens (image : Database → Bytes) (faults : Prop) : Performing :=
  fun handle before action reply after =>
    Works image handle before action reply after ∨
      faults ∧ Acts image handle before action reply after

/-- What is read in a transaction is what it sees. -/
theorem happens_read {faults : Prop} {action : Action} {reply : Reply action}
    {statement : Database → Reply action}
    (hperform : ∀ world, perform image handle action world =
      (world.read handle statement, world))
    (hopen : before.Open handle committed pending)
    (h : Happens image faults handle before action reply after) :
    after.Open handle committed pending ∧
      (reply = statement pending ∨ faults ∧ ∃ raised, reply = .error raised) := by
  have hworks : ∀ world reply, perform image handle action before = (reply, world) →
      world.Open handle committed pending ∧ reply = statement pending := by
    intro world reply h
    rw [hperform, read_of_open hopen] at h
    cases h
    exact ⟨hopen, rfl⟩
  rcases h with ⟨world, hworld, rfl⟩ | ⟨hfaults, hacts⟩
  · obtain ⟨hafter, hreply⟩ := hworks world reply hworld
    exact ⟨open_record hafter, .inl hreply⟩
  · cases hacts with
    | performed hworld =>
        obtain ⟨hafter, hreply⟩ := hworks _ _ hworld
        exact ⟨open_record hafter, .inl hreply⟩
    | faulted hdamages _ =>
        exact ⟨open_record (open_of_damages hopen hdamages), .inr ⟨hfaults, .fault, rfl⟩⟩

/-- The statement of an action that changes tables. -/
def Action.statement : Action → Option (Database → Except Raised Database)
  | .insertAttempt state => some (·.insertAttempt state)
  | .updateAttempt update => some (·.updateAttempt update)
  | .insertEvent row => some (·.insertEvent row)
  | _ => none

/-- A statement inside a transaction changes the copy, or fails and changes nothing. -/
theorem happens_write {faults : Prop} {action : Action} {reply : Reply action}
    {statement : Database → Except Raised Database} (haction : action.statement = some statement)
    (hopen : before.Open handle committed pending)
    (h : Happens image faults handle before action reply after) :
    (∃ value written, reply = .ok value ∧ statement pending = .ok written ∧
        after.Open handle committed written) ∨
      (∃ raised, reply = .error raised) ∧ after.Open handle committed pending ∧
        (faults ∨ ∃ raised, statement pending = .error raised) := by
  -- the statement works on the copy of the transaction
  have hwrites : ∀ (world : World) (reply : Except Raised Unit),
      before.write handle statement = (reply, world) →
      (∃ value written, reply = .ok value ∧ statement pending = .ok written ∧
          world.Open handle committed written) ∨
        (∃ raised, reply = .error raised) ∧ world.Open handle committed pending ∧
          (faults ∨ ∃ raised, statement pending = .error raised) := by
    intro world reply hwrite
    simp only [World.write, hopen.writer, if_true] at hwrite
    cases hstatement : statement pending with
    | ok written =>
        rw [hstatement] at hwrite
        cases hwrite
        exact .inl ⟨(), written, rfl, rfl, hopen.database, rfl⟩
    | error raised =>
        rw [hstatement] at hwrite
        cases hwrite
        exact .inr ⟨⟨raised, rfl⟩, hopen, .inr ⟨raised, rfl⟩⟩
  have hperformed : ∀ (world : World), perform image handle action before = (reply, world) →
      (∃ value written, reply = .ok value ∧ statement pending = .ok written ∧
          world.Open handle committed written) ∨
        (∃ raised, reply = .error raised) ∧ world.Open handle committed pending ∧
          (faults ∨ ∃ raised, statement pending = .error raised) := by
    intro world hperform
    cases action with
    | insertAttempt | updateAttempt | insertEvent =>
        cases haction
        exact hwrites _ _ hperform
    | _ => cases haction
  -- the history of the world does not matter
  have hrecord : ∀ (world : World) (happening : Happening),
      perform image handle action before = (reply, world) →
      (∃ value written, reply = .ok value ∧ statement pending = .ok written ∧
          (world.record happening).Open handle committed written) ∨
        (∃ raised, reply = .error raised) ∧ (world.record happening).Open handle committed pending ∧
          (faults ∨ ∃ raised, statement pending = .error raised) := by
    intro world happening hworld
    rcases hperformed world hworld with
      ⟨value, written, hreply, hwritten, hafter⟩ | ⟨hraised, hafter, hwhy⟩
    · exact .inl ⟨value, written, hreply, hwritten, open_record hafter⟩
    · exact .inr ⟨hraised, open_record hafter, hwhy⟩
  rcases h with ⟨world, hworld, rfl⟩ | ⟨hfaults, hacts⟩
  · exact hrecord world _ hworld
  · cases hacts with
    | performed hworld => exact hrecord _ _ hworld
    | faulted hdamages _ =>
        exact .inr ⟨⟨.fault, rfl⟩, open_record (open_of_damages hopen hdamages), .inl hfaults⟩

end Acting

/-! ## The statements of the methods -/

/-- What the statements of a transaction need of the rules for sharing. -/
structure Hosts (image : Database → Bytes)
    (sharing : Interference Handle World Action Reply) (handle : Handle) (faults : Prop) :
    Prop where
  happens : ∀ {before action reply after}, sharing.Performs handle before action reply after →
    Happens image faults handle before action reply after
  stays : ∀ {before after committed pending}, sharing.Later handle before after →
    before.Open handle committed pending → after.Open handle committed pending
  keeps : ∀ {before action reply after committed pending written},
    sharing.Invariant before → before.Open handle committed pending →
    Action.inTransaction action = true → sharing.Performs handle before action reply after →
    after.Open handle committed written → sharing.Keeps handle before after

section Hosted

variable {image : Database → Bytes} {sharing : Interference Handle World Action Reply}
  {handle : Handle} {faults refusal : Prop} {world : World} {committed pending : Database}

/-- What statements of a transaction end with: they come through, or they raise
because of the environment or of what the tables say. -/
def Within (handle : Handle) (committed : Database) (refusal : Prop) {Value : Type}
    (post : Value → Database → Prop) (outcome : Except Raised Value) (world : World) : Prop :=
  match outcome with
  | .ok value => ∃ pending, world.Open handle committed pending ∧ post value pending
  | .error _ => refusal ∧ ∃ pending, world.Open handle committed pending

variable (hosts : Hosts image sharing handle faults)
include hosts

/-- What holds inside a transaction outlasts the steps of other handles. -/
theorem within_later {Value : Type} {post : Value → Database → Prop}
    {outcome : Except Raised Value} {before after : World}
    (hwithin : Within handle committed refusal post outcome before)
    (hlater : sharing.Later handle before after) :
    Within handle committed refusal post outcome after := by
  cases outcome with
  | ok value =>
      obtain ⟨pending, hopen, hpost⟩ := hwithin
      exact ⟨pending, hosts.stays hlater hopen, hpost⟩
  | error raised =>
      obtain ⟨hrefusal, pending, hopen⟩ := hwithin
      exact ⟨hrefusal, pending, hosts.stays hlater hopen⟩

/-- Statements one after the other. -/
theorem within_bind {First Second : Type} {middle : First → Database → Prop}
    {post : Second → Database → Prop} {call : LedgerCall First}
    {rest : First → LedgerCall Second}
    (hcall : sharing.Safe handle (Within handle committed refusal middle) call.run world)
    (hrest : ∀ value pending after, middle value pending → after.Open handle committed pending →
      sharing.Safe handle (Within handle committed refusal post) (rest value).run after) :
    sharing.Safe handle (Within handle committed refusal post) (call >>= rest).run world := by
  apply Interference.safe_call_bind
  apply hcall.imp
  intro outcome after _ hwithin
  cases outcome with
  | ok value =>
      obtain ⟨pending, hopen, hmiddle⟩ := hwithin
      exact hrest value pending after hmiddle hopen
  | error raised =>
      intro last hlast
      exact within_later hosts hwithin hlast

/-- A check raises on its condition and otherwise goes on. -/
theorem within_raiseIf {condition : Prop} [Decidable condition] {raised : Raised}
    {post : Unit → Database → Prop} (hopen : world.Open handle committed pending)
    (hrefusal : condition → refusal) (hpost : ¬condition → post () pending) :
    sharing.Safe handle (Within handle committed refusal post)
      (raiseIf condition raised).run world := by
  by_cases hcondition : condition
  · rw [raiseIf, if_pos hcondition]
    intro after hlater
    exact ⟨hrefusal hcondition, pending, hosts.stays hlater hopen⟩
  · rw [raiseIf, if_neg hcondition]
    intro after hlater
    exact ⟨pending, hosts.stays hlater hopen, hpost hcondition⟩

/-- An action inside a transaction leaves it open. -/
theorem within_execute {action : Action} {post : Result action → Database → Prop}
    (hopen : world.Open handle committed pending) (haction : action.inTransaction = true)
    (hhappens : ∀ before reply after, before.Open handle committed pending →
      Happens image faults handle before action reply after →
        Within handle committed refusal post reply after) :
    sharing.Safe handle (Within handle committed refusal post) (execute action).run world := by
  apply Interference.safe_execute
  intro middle hmiddle reply after hperforms
  have hopenMiddle := hosts.stays hmiddle hopen
  have hwithin := hhappens middle reply after hopenMiddle (hosts.happens hperforms)
  have hafter : ∃ written, after.Open handle committed written := by
    cases reply with
    | ok value => exact hwithin.imp fun written h => h.1
    | error raised => exact hwithin.2
  obtain ⟨written, hwritten⟩ := hafter
  refine ⟨hosts.keeps hmiddle.invariant hopenMiddle haction hperforms hwritten, ?_⟩
  intro last hlast
  exact within_later hosts hwithin hlast

/-- What is read inside a transaction is the copy. -/
theorem within_read {action : Action} {statement : Database → Reply action}
    (hperform : ∀ world, perform image handle action world =
      (world.read handle statement, world)) (haction : action.inTransaction = true)
    (hopen : world.Open handle committed pending)
    (hrefusal : faults ∨ (∃ raised, statement pending = .error raised) → refusal) :
    sharing.Safe handle (Within handle committed refusal fun value seen =>
      seen = pending ∧ statement pending = .ok value) (execute action).run world := by
  apply within_execute hosts hopen haction
  intro before reply after hbefore hhappens
  obtain ⟨hafter, hreply⟩ := happens_read hperform hbefore hhappens
  cases reply with
  | ok value =>
      refine ⟨pending, hafter, rfl, ?_⟩
      rcases hreply with hreply | ⟨_, raised, hraised⟩
      · exact hreply.symm
      · cases hraised
  | error raised =>
      refine ⟨hrefusal ?_, pending, hafter⟩
      rcases hreply with hreply | ⟨hfaults, _⟩
      · exact .inr ⟨raised, hreply.symm⟩
      · exact .inl hfaults

/-- What is written inside a transaction is the copy. -/
theorem within_write {action : Action} {statement : Database → Except Raised Database}
    {post : Result action → Database → Prop} (haction : action.statement = some statement)
    (hopen : world.Open handle committed pending)
    (hrefusal : faults ∨ (∃ raised, statement pending = .error raised) → refusal)
    (hpost : ∀ value written, statement pending = .ok written → post value written) :
    sharing.Safe handle (Within handle committed refusal post) (execute action).run world := by
  have hin : action.inTransaction = true := by
    cases action <;> first | rfl | cases haction
  apply within_execute hosts hopen hin
  intro before reply after hbefore hhappens
  rcases happens_write haction hbefore hhappens with
    ⟨value, written, rfl, hwritten, hafter⟩ | ⟨⟨raised, rfl⟩, hafter, hwhy⟩
  · exact ⟨written, hafter, hpost value written hwritten⟩
  · exact ⟨hrefusal hwhy, pending, hafter⟩

/-- `_append_event` extends the chain by one event. -/
theorem within_appendEvent {milestones : List String} {event : String}
    (hopen : world.Open handle committed pending) (hfaults : faults → refusal)
    (htable : pending.events.isSome)
    (hevents : pending.eventRows = chainFrom zeroHash milestones) :
    sharing.Safe handle (Within handle committed refusal fun _ written =>
      written.attemptRows = pending.attemptRows ∧
        written.eventRows = chainFrom zeroHash (milestones ++ [event]))
      (Ledger._appendEvent event).run world := by
  have hlastHash : ¬∃ raised, pending.selectLastHash = .error raised :=
    Database.selectLastHash_isOk htable
  apply within_bind hosts
    (within_read hosts (fun _ => rfl) rfl hopen fun h => hfaults (h.resolve_right hlastHash))
  rintro last seen after ⟨rfl, hlast⟩ hafter
  dsimp only
  rw [Database.eventAfter_last event hevents hlast]
  have hinsert : ∀ row, ¬∃ raised, seen.insertEvent row = .error raised :=
    fun row => Database.insertEvent_isOk htable
  apply within_write hosts rfl hafter (fun h => hfaults (h.resolve_right (hinsert _)))
  intro value written hwritten
  exact Database.appendEvent_eq hevents hwritten

/-- The guarded update of a method and its event. -/
theorem within_update {phase next : Phase} {update : Update} {event : String} {row : AttemptRow}
    (hopen : world.Open handle committed pending) (hfaults : faults → refusal)
    (htables : pending.HasTables) (hholds : pending.Holds phase)
    (hrow : phase.row? = some row) (hcurrent : row.current = true)
    (hupdate : next.row? = some (update.apply row))
    (hmilestones : next.milestones = phase.milestones ++ [event]) :
    sharing.Safe handle (Within handle committed refusal fun _ written => written.Holds next)
      (execute (.updateAttempt update) >>= fun _ => Ledger._appendEvent event).run world := by
  have hrows : pending.attemptRows = [row] := by rw [hholds.attempts, hrow]; rfl
  have hupdates : ¬∃ raised, pending.updateAttempt update = .error raised :=
    Database.updateAttempt_isOk htables.attempts
  apply @within_bind _ _ _ _ _ _ _ hosts _ _ fun _ written =>
    pending.updateAttempt update = .ok written
  · exact within_write hosts rfl hopen (fun h => hfaults (h.resolve_right hupdates))
      fun _ _ hwritten => hwritten
  · intro value written after hwritten hafter
    obtain ⟨hattemptRows, heventRows⟩ := Database.updateAttempt_eq hrows hcurrent hwritten
    have hevents := keepsTables_updateAttempt update _ _ hwritten
    apply Interference.Safe.imp (within_appendEvent hosts hafter hfaults
      (hevents.events htables.events) (heventRows.trans hholds.events))
    intro outcome last _ hwithin
    cases outcome with
    | error raised => exact hwithin
    | ok value =>
        obtain ⟨appended, hlast, hattempts, hchain⟩ := hwithin
        refine ⟨appended, hlast, ?_, ?_⟩
        · rw [hattempts, hattemptRows, hupdate]
          rfl
        · rw [hchain, hmilestones]

end Hosted

/-- The guard of a method over the row of its attempt, and what the method writes:
they lead from each phase to the next one. -/
structure Guards (operation : Operation) (condition : Option AttemptRow → Prop)
    (update : Update) (event : String) : Prop where
  refuses : ∀ phase, condition phase.row? → operation.next phase = none
  advances : ∀ phase, ¬condition phase.row? → ∃ next row, operation.next phase = some next ∧
    phase.row? = some row ∧ row.current = true ∧ next.row? = some (update.apply row) ∧
    next.milestones = phase.milestones ++ [event]

/-- `consume` goes on from PREPARED with no dispatch, and from nothing else. -/
theorem guards_consume : Guards .consume
    (fun row => row.map (fun row => (row.state, row.dispatchCount)) ≠
      some (.text "PREPARED", .integer 0))
    .consumed "CONSUMED_BEFORE_FIXTURE_NOOP" := by
  constructor
  · intro phase hcondition
    cases phase with
    | prepared => exact absurd rfl hcondition
    | _ => rfl
  · intro phase hcondition
    cases phase with
    | prepared => exact ⟨.consumed, _, rfl, rfl, current_new _ _ _, rfl, rfl⟩
    | _ => exact absurd (by simp [Phase.row?, Phase.state]) hcondition

/-- `record_result` goes on from CONSUMED with one dispatch, and from nothing else. -/
theorem guards_recordResult (receiptDigest : String) : Guards (.recordResult receiptDigest)
    (fun row => row.map (fun row => (row.state, row.dispatchCount)) ≠
      some (.text "CONSUMED", .integer 1))
    (.result receiptDigest) "FIXTURE_NOOP_RESULT" := by
  constructor
  · intro phase hcondition
    cases phase with
    | consumed => exact absurd rfl hcondition
    | _ => rfl
  · intro phase hcondition
    cases phase with
    | consumed => exact ⟨.result receiptDigest, _, rfl, rfl, current_new _ _ _, rfl, rfl⟩
    | _ => exact absurd (by simp [Phase.row?, Phase.state]) hcondition

/-- A result is missing when its digest is empty. -/
theorem lacksResult_result (receiptDigest : String) :
    Ledger.lacksResult (Phase.result receiptDigest).row? = receiptDigest.isEmpty := by
  simp [Ledger.lacksResult, Phase.row?, Phase.state, Phase.dispatchCount, Phase.receiptDigest,
    StoredValue.isFalsy]

/-- `terminal` goes on from a durable result, and from nothing else. -/
theorem guards_terminal :
    Guards .terminal (fun row => Ledger.lacksResult row = true) .terminal "TERMINAL" := by
  constructor
  · intro phase hcondition
    cases phase with
    | result receiptDigest =>
        rw [lacksResult_result] at hcondition
        simp only [Operation.next, hcondition, if_true]
    | _ => rfl
  · intro phase hcondition
    cases phase with
    | result receiptDigest =>
        rw [lacksResult_result, Bool.not_eq_true] at hcondition
        refine ⟨.terminal receiptDigest, _, ?_, rfl, current_new _ _ _, rfl, rfl⟩
        simp only [Operation.next, hcondition, Bool.false_eq_true, if_false]
    | _ => exact absurd (by simp [Ledger.lacksResult, Phase.row?, Phase.state]) hcondition

/-- The statements of a method: from the tables of a phase they lead to the
tables of the next one, or they refuse because there is none. -/
def Carries (image : Database → Bytes) (operation : Operation)
    (statements : LedgerCall Unit) : Prop :=
  ∀ (sharing : Interference Handle World Action Reply) (handle : Handle) (faults : Prop),
    Hosts image sharing handle faults → ∀ (world : World) (committed : Database) (phase : Phase),
      world.Open handle committed committed → committed.HasTables → committed.Holds phase →
      sharing.Safe handle (Within handle committed (faults ∨ operation.next phase = none)
        fun _ pending => ∃ next, operation.next phase = some next ∧ pending.Holds next)
        statements.run world

section Methods

variable {image : Database → Bytes}

/-- A transaction that leads to the next phase has carried the operation out. -/
theorem within_advances {handle : Handle} {committed : Database} {operation : Operation}
    {refusal : Prop} {phase next : Phase} {outcome : Except Raised Unit} {world : World}
    (hnext : operation.next phase = some next)
    (hwithin : Within handle committed refusal (fun _ written => written.Holds next) outcome
      world) :
    Within handle committed refusal (fun _ pending => ∃ next, operation.next phase = some next ∧
      pending.Holds next) outcome world := by
  cases outcome with
  | ok value =>
      obtain ⟨pending, hopen, hpending⟩ := hwithin
      exact ⟨pending, hopen, next, hnext, hpending⟩
  | error raised => exact hwithin

/-- `prepare` is a transaction that leads from no attempt to PREPARED. -/
theorem exists_prepare : ∃ statements, Ledger.prepare = Ledger.transaction statements ∧
    Carries image .prepare statements := by
  refine ⟨_, rfl, ?_⟩
  intro sharing handle faults hosts world committed phase hopen htables hholds
  apply @within_bind _ _ _ _ _ _ _ hosts _ _ fun _ written =>
    committed.insertAttempt "PREPARED" = .ok written
  · apply within_write hosts rfl hopen _ fun _ _ hwritten => hwritten
    intro hwhy
    rcases hwhy with hfaults | ⟨raised, hraised⟩
    · exact .inl hfaults
    · exact .inr (Database.insertAttempt_refuses htables.attempts hholds hraised)
  · intro value written after hwritten hafter
    obtain ⟨rfl, hattempts, hevents⟩ := Database.insertAttempt_eq hholds hwritten
    have hkept := keepsTables_insertAttempt "PREPARED" _ _ hwritten
    apply Interference.Safe.imp (within_appendEvent hosts hafter Or.inl
      (hkept.events htables.events) (hevents.trans hholds.events))
    intro outcome last _ hwithin
    apply within_advances rfl
    cases outcome with
    | error raised => exact hwithin
    | ok value =>
        obtain ⟨appended, hlast, happended, hchain⟩ := hwithin
        exact ⟨appended, hlast, happended.trans hattempts, hchain⟩

/-- A method that reads the row of its attempt, checks it and updates it. -/
theorem carries_guarded {operation : Operation} {condition : Option AttemptRow → Prop}
    [∀ row, Decidable (condition row)] {raised : Raised} {update : Update} {event : String}
    (hguards : Guards operation condition update event) :
    Carries image operation (do
      let row ← execute .selectAttempt
      raiseIf (condition row) raised
      execute (.updateAttempt update)
      Ledger._appendEvent event) := by
  intro sharing handle faults hosts world committed phase hopen htables hholds
  have hselects : ¬∃ raised, committed.selectAttempt = .error raised :=
    Database.selectAttempt_isOk htables.attempts
  apply within_bind hosts
    (within_read hosts (fun _ => rfl) rfl hopen fun h => .inl (h.resolve_right hselects))
  rintro row seen after ⟨rfl, hrow⟩ hafter
  have hselected := Database.selectAttempt_eq hholds hrow
  apply @within_bind _ _ _ _ _ _ _ hosts _ _ fun _ written => ¬condition row ∧ written = seen
  · apply within_raiseIf hosts hafter
    · intro hcondition
      rw [hselected] at hcondition
      exact .inr (hguards.refuses phase hcondition)
    · exact fun hcondition => ⟨hcondition, rfl⟩
  · rintro value written last ⟨hcondition, rfl⟩ hlast
    rw [hselected] at hcondition
    obtain ⟨next, current, hadvances, hcurrent, hkey, hupdated, hmilestones⟩ :=
      hguards.advances phase hcondition
    apply Interference.Safe.imp
      (within_update hosts hlast Or.inl htables hholds hcurrent hkey hupdated hmilestones)
    intro outcome final _ hwithin
    exact within_advances hadvances hwithin

/-- `consume` is a transaction that leads from PREPARED to CONSUMED. -/
theorem exists_consume : ∃ statements, Ledger.consume = Ledger.transaction statements ∧
    Carries image .consume statements :=
  ⟨_, rfl, carries_guarded guards_consume⟩

/-- `record_result` is a transaction that leads from CONSUMED to RESULT. -/
theorem exists_recordResult (receiptDigest : String) :
    ∃ statements, Ledger.recordResult receiptDigest = Ledger.transaction statements ∧
      Carries image (.recordResult receiptDigest) statements :=
  ⟨_, rfl, carries_guarded (guards_recordResult receiptDigest)⟩

/-- `terminal` is a transaction that leads from RESULT to TERMINAL. -/
theorem exists_terminal : ∃ statements, Ledger.terminal = Ledger.transaction statements ∧
    Carries image .terminal statements :=
  ⟨_, rfl, carries_guarded guards_terminal⟩

/-- Every method is a transaction over statements that carry its phase on. -/
theorem exists_statements {operation : Operation} (h : operation ≠ .construct) :
    ∃ statements, operation.call = Ledger.transaction statements ∧
      Carries image operation statements := by
  cases operation with
  | construct => exact absurd rfl h
  | prepare => exact exists_prepare
  | consume => exact exists_consume
  | recordResult receiptDigest => exact exists_recordResult receiptDigest
  | terminal => exact exists_terminal

end Methods

end Oasi.Broker
