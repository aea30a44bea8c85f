import Oasi.Broker.Conversation

/-! # What a run may count on

For each kind of action of a run: what it has to know before it acts, and what it knows
when the action returns, whatever the other runs do in the meantime.
-/

namespace Oasi.Broker

section Actions

variable {crypto : Ed25519} {image : Database → Bytes} {process : Handle}
  {before world : RunWorld}

/-! ## Single actions -/

/-- A sound world is kept when nothing happens to it. -/
theorem keeps_aside (hsound : world.Sound crypto) :
    (dispatching crypto image).Keeps process world world :=
  ⟨hsound, fun other _ => .refl other world⟩

/-- Receiving a chunk keeps a sound world sound. -/
theorem keeps_received (chunk : Bytes) (hsound : world.Sound crypto) :
    (dispatching crypto image).Keeps process world (world.note (.received process chunk)) := by
  constructor
  · constructor
    · exact hsound.ledger
    · exact hsound.accounted
    · exact hsound.dispatched
    · intro other hexecute
      obtain ⟨hprepare, hanswered⟩ := hsound.ordered other hexecute
      refine ⟨hprepare, ?_⟩
      rw [RunWorld.received_received]
      split
      · exact hanswered.append chunk
      · exact hanswered
    · intro other hother
      obtain ⟨hexecute, heffective⟩ := hsound.finished other hother
      refine ⟨hexecute, ?_⟩
      rw [RunWorld.received_received]
      split
      · exact heffective.append chunk
      · exact heffective
  · intro other hother
    refine ⟨.refl other world.ledger, rfl, ?_⟩
    rw [RunWorld.received_received, if_neg (Ne.symm hother)]

/-- An execute frame needs a consumption of its own and the answer of the guest. -/
theorem keeps_sent {bytes : Bytes} (hsound : world.Sound crypto)
    (hpermitted : bytes = executeWire crypto →
      (world.sends process).count (executeWire crypto) < world.ledger.committers.count process ∧
        prepareWire crypto ∈ world.sends process ∧ Answered crypto (world.received process)) :
    (dispatching crypto image).Keeps process world (world.note (.sent process bytes)) := by
  constructor
  · constructor
    · exact hsound.ledger
    · exact hsound.accounted
    · intro other
      rw [RunWorld.sends_sent]
      by_cases hother : process = other
      · subst hother
        rw [if_pos rfl]
        by_cases hbytes : bytes = executeWire crypto
        · rw [hbytes, List.count_cons_self]
          exact (hpermitted hbytes).1
        · rw [List.count_cons_of_ne hbytes]
          exact hsound.dispatched process
      · rw [if_neg hother]
        exact hsound.dispatched other
    · intro other hexecute
      rw [RunWorld.sends_sent] at hexecute ⊢
      rw [RunWorld.received_sent]
      by_cases hother : process = other
      · subst hother
        rw [if_pos rfl] at hexecute ⊢
        rcases List.mem_cons.mp hexecute with hbytes | hearlier
        · obtain ⟨_, hprepare, hanswered⟩ := hpermitted hbytes.symm
          exact ⟨List.mem_cons_of_mem _ hprepare, hanswered⟩
        · obtain ⟨hprepare, hanswered⟩ := hsound.ordered process hearlier
          exact ⟨List.mem_cons_of_mem _ hprepare, hanswered⟩
      · rw [if_neg hother] at hexecute ⊢
        exact hsound.ordered other hexecute
    · intro other hfinisher
      obtain ⟨hexecute, heffective⟩ := hsound.finished other hfinisher
      refine ⟨?_, heffective⟩
      rw [RunWorld.sends_sent]
      split
      · exact List.mem_cons_of_mem _ hexecute
      · exact hexecute
  · intro other hother
    refine ⟨.refl other world.ledger, ?_, rfl⟩
    rw [RunWorld.sends_sent, if_neg (Ne.symm hother)]

/-- No action takes a commit back. -/
theorem count_committers_le {action : Action} {reply : Reply action} {first second : World}
    (h : Acts image process first action reply second) (other : Handle) :
    first.committers.count other ≤ second.committers.count other := by
  rw [World.committers, World.committers, h.history, List.filterMap_cons]
  split
  · exact Nat.le_refl _
  · exact List.count_le_count_cons

/-- What a run does to its ledger, when it has a result before it says so. -/
theorem keeps_ledger {action : Action} {reply : Reply action} {after : World}
    (hsound : before.Sound crypto) (hacts : Acts image process before.ledger action reply after)
    (hkeeps : (sharing image).Keeps process before.ledger after)
    (hfinishes : action.finishes = true → executeWire crypto ∈ before.sends process ∧
      Effective crypto (before.received process)) :
    (dispatching crypto image).Keeps process before { before with ledger := after } := by
  constructor
  · constructor
    · exact hkeeps.invariant
    · exact hacts.accounted hsound.accounted
    · intro other
      exact Nat.le_trans (hsound.dispatched other) (count_committers_le hacts other)
    · exact hsound.ordered
    · intro other hother
      change other ∈ after.finishers at hother
      rw [hacts.finishers] at hother
      split at hother
      next hfinish =>
        rcases List.mem_cons.mp hother with rfl | hearlier
        · exact hfinishes hfinish
        · exact hsound.finished other hearlier
      next => exact hsound.finished other hother
  · intro other hother
    exact ⟨hkeeps.others other hother, rfl, rfl⟩

/-- Closing a connection keeps the history. -/
theorem release_history (ledger : World) :
    (ledger.release process).history = ledger.history := by
  rcases release_cases ledger process with ⟨_, hrelease⟩ | ⟨_, hrelease⟩
  · rw [hrelease]
  · rw [hrelease]

/-- Closing the ledger keeps a sound world sound. -/
theorem keeps_closed (hsound : world.Sound crypto) :
    (dispatching crypto image).Keeps process world
      { world with ledger := world.ledger.release process } := by
  have hkeeps := (@keeps_release image process world.ledger hsound.ledger).1
  constructor
  · constructor
    · exact hkeeps.invariant
    · exact accounted_release hsound.accounted
    · intro other
      have hdispatched := hsound.dispatched other
      rw [World.committers] at hdispatched ⊢
      rw [release_history]
      exact hdispatched
    · exact hsound.ordered
    · intro other hother
      rw [World.finishers, release_history] at hother
      exact hsound.finished other hother
  · intro other hother
    exact ⟨hkeeps.others other hother, rfl, rfl⟩

end Actions

/-! ## What a run knows about itself -/

/-- How far a run has come: whether its ledger has tables, whether it has consumed the
attempt, and what has passed over its channel. -/
structure Stand where
  ready : Bool
  consumed : Bool
  sends : List Bytes
  received : Bytes

namespace Stand

/-- Before the first action of a run. -/
def fresh : Stand := ⟨false, false, [], []⟩

/-- Behind a call of the ledger. -/
def after (stand : Stand) : Operation → Stand
  | .construct => { stand with ready := true }
  | .consume => { stand with consumed := true }
  | _ => stand

def sending (stand : Stand) (bytes : Bytes) : Stand := { stand with sends := bytes :: stand.sends }

def receiving (stand : Stand) (bytes : Bytes) : Stand :=
  { stand with received := stand.received ++ bytes }

@[simp] theorem receiving_nil (stand : Stand) : stand.receiving [] = stand := by
  simp [receiving]

/-- Two chunks are received as their concatenation is. -/
@[simp] theorem receiving_receiving (stand : Stand) (first second : Bytes) :
    (stand.receiving first).receiving second = stand.receiving (first ++ second) := by
  simp [receiving]

end Stand

structure Spoken (process : Handle) (stand : Stand) (world : RunWorld) : Prop where
  sends : world.sends process = stand.sends
  received : world.received process = stand.received
  tables : stand.ready = true → world.ledger.HasTables
  consumed : stand.consumed = true → 1 ≤ world.ledger.committers.count process

structure Stands (process : Handle) (stand : Stand) (world : RunWorld) : Prop extends
    Spoken process stand world where
  idle : world.ledger.IdleAt process

section Rules

variable {crypto : Ed25519} {image : Database → Bytes} {process : Handle} {stand : Stand}

/-- What a process has spoken is stable under the others' actions. -/
theorem spoken_stable :
    (dispatching crypto image).Stable process (Spoken process stand) := by
  intro before after hlater h
  constructor
  · exact hlater.rely.sends.trans h.sends
  · exact hlater.rely.received.trans h.received
  · intro hready
    exact (h.tables hready).grow hlater.rely.ledger.grows
  · intro hconsumed
    exact Nat.le_trans (h.consumed hconsumed) (Nat.le_of_eq hlater.rely.ledger.committers.symm)

/-- Where a process stands is stable under the others' actions. -/
theorem stands_stable :
    (dispatching crypto image).Stable process (Stands process stand) := by
  intro before after hlater h
  exact ⟨spoken_stable before after hlater h.toSpoken, hlater.rely.ledger.idle h.idle⟩

/-- What always holds is stable. -/
theorem true_stable : (dispatching crypto image).Stable process fun _ => True :=
  fun _ _ _ _ => trivial

/-! ## Actions aside -/

/-- An action beside the ledger changes nothing. -/
theorem acts_aside {action : RunAction} {reply : RunReply action} {before after : RunWorld}
    (haction : action.aside = true) (h : RunActs image process before action reply after) :
    after = before := by
  cases h with
  | aside => rfl
  | silent => rfl
  | ledger | received | sent | closed => cases haction

/-- A call that only acts beside the ledger stays where it stands. -/
theorem leads_aside {Value : Type} {call : RunCall Value}
    (huses : call.run.Uses fun action => action.aside = true) :
    (dispatching crypto image).Leads process (Stands process stand) call
      fun _ => Stands process stand := by
  apply Interference.leads_of_uses stands_stable _ huses
  intro before action reply after haction hsound hstands h
  rw [acts_aside haction h]
  exact ⟨keeps_aside hsound, hstands⟩

/-- Actions that may follow an exception. -/
def RunAction.cleans (action : RunAction) : Prop := action.aside = true ∨ action = .closeLedger

/-- Cleaning up promises nothing about what follows. -/
theorem leads_cleanup {Value : Type} {call : RunCall Value} {pre : RunWorld → Prop}
    (huses : call.run.Uses RunAction.cleans) :
    (dispatching crypto image).Leads process pre call fun _ _ => True := by
  have hcalm : (dispatching crypto image).Leads process (fun _ => True) call fun _ _ => True := by
    apply Interference.leads_of_uses true_stable _ huses
    intro before action reply after haction hsound _ h
    refine ⟨?_, trivial⟩
    rcases haction with haside | rfl
    · rw [acts_aside haside h]
      exact keeps_aside hsound
    · cases h with
      | closed => exact keeps_closed hsound
      | aside haction => cases haction
  exact hcalm.weaken (fun _ _ => trivial) fun _ _ _ => trivial

/-! ## Calls of the ledger -/

/-- A call that is safe among handles is safe among runs, when it asks for no result that
the run does not have. -/
theorem safe_ledger {Value : Type} {call : LedgerCall Value}
    {post : Except Raised Value → World → Prop} {allowed : Action → Prop} {world : RunWorld}
    (huses : call.run.Uses allowed)
    (hfinishes : ∀ action, allowed action → action.finishes = true →
      executeWire crypto ∈ stand.sends ∧ Effective crypto stand.received)
    (hsafe : (sharing image).Safe process post call.run world.ledger)
    (hspoken : Spoken process stand world) :
    (dispatching crypto image).Safe process
      (fun outcome after => post outcome after.ledger ∧ Spoken process stand after)
      (Dispatch.ledgerCall call).run world := by
  apply Interference.safe_inject _ spoken_stable _ huses hsafe hspoken
  · intro before after hlater
    exact ⟨hlater.invariant.ledger, hlater.rely.ledger⟩
  · intro before action reply after hallowed hsound hspoken h
    cases h with
    | @ledger _ _ ledger hacts =>
        refine ⟨hacts, fun hkeeps => ⟨keeps_ledger hsound hacts hkeeps ?_, ?_⟩⟩
        · intro hfinish
          rw [hspoken.sends, hspoken.received]
          exact hfinishes action hallowed hfinish
        · constructor
          · exact hspoken.sends
          · exact hspoken.received
          · intro hready
            exact (hspoken.tables hready).grow (hacts.coexists hsound.ledger.writer).grows
          · intro hconsumed
            exact Nat.le_trans (hspoken.consumed hconsumed) (count_committers_le hacts process)
    | aside haction => cases haction

/-- Reading the ledger changes nothing. -/
theorem leads_query {Value : Type} {call : LedgerCall Value}
    (huses : call.run.Uses Action.quiet) :
    (dispatching crypto image).Leads process (Stands process stand) (Dispatch.ledgerCall call)
      fun _ => Stands process stand := by
  intro world hstands
  have hsafe := @safe_quiet image process Value call world.ledger huses hstands.idle
  apply (safe_ledger huses _ hsafe hstands.toSpoken).imp
  · intro outcome after _ hafter value _
    exact ⟨hafter.2, hafter.1⟩
  · intro action hquiet hfinish
    cases action <;> simp_all [Action.quiet, Action.writes, Action.finishes]

/-- The methods that ask for a result. -/
def Operation.finishes : Operation → Bool
  | .recordResult _ | .terminal => true
  | _ => false

/-- Where every action is allowed, every call uses allowed ones. -/
theorem uses_any {Value : Type} {allowed : Action → Prop} (hallowed : ∀ action, allowed action)
    (call : LedgerCall Value) : call.run.Uses allowed := by
  induction call.run with
  | done value => trivial
  | act action next ih => exact ⟨hallowed action, ih⟩

/-- A transaction uses what its statements do, its own brackets and the seal. -/
theorem uses_transaction {allowed : Action → Prop} {statements : LedgerCall Unit}
    (hstatements : statements.run.Uses allowed)
    (hrest : ∀ action, action.seals = true ∨ action = .beginImmediate ∨ action = .commit ∨
      action = .rollback → allowed action) :
    (Ledger.transaction statements).run.Uses allowed := by
  unfold Ledger.transaction
  refine Call.uses_bind (uses_execute (hrest _ (by simp))) fun _ => ?_
  refine Call.uses_tryCatch ?_ fun raised => ?_
  · refine Call.uses_bind hstatements fun _ => ?_
    refine Call.uses_bind (uses_execute (hrest _ (by simp))) fun _ => ?_
    exact seal_uses.imp fun action haction => hrest action (.inl haction)
  · exact Call.uses_bind (uses_execute (hrest _ (by simp))) fun _ => trivial

/-- Appending an event uses a reading of the last hash and one insertion. -/
theorem uses_appendEvent {allowed : Action → Prop} (event : String)
    (hlast : allowed .selectLastHash) (hinsert : ∀ row, allowed (.insertEvent row)) :
    (Ledger._appendEvent event).run.Uses allowed := by
  unfold Ledger._appendEvent
  refine Call.uses_bind (uses_execute hlast) fun _ => ?_
  exact Call.uses_bind (uses_orRaise _) fun _ => uses_execute (hinsert _)

/-- Only the methods that ask for a result perform such actions. -/
theorem operation_uses (operation : Operation) :
    operation.call.run.Uses fun action => action.finishes = true → operation.finishes = true := by
  have hrest : ∀ (action : Action) (conclusion : Prop), action.seals = true ∨
      action = .beginImmediate ∨ action = .commit ∨ action = .rollback →
      action.finishes = true → conclusion := by
    intro action conclusion h hfinishes
    cases action <;> simp_all [Action.seals, Action.finishes]
  cases operation with
  | construct =>
      apply construct_uses.imp
      intro action haction hfinishes
      cases action <;>
        simp_all [Action.constructs, Action.checks, Action.seals, Action.finishes]
  | prepare =>
      apply uses_transaction _ fun action h => hrest action _ h
      refine Call.uses_bind (uses_execute fun h => ?_) fun _ => uses_appendEvent _ ?_ ?_
      · exact absurd h (by decide)
      · exact fun h => by cases h
      · exact fun row h => by cases h
  | consume =>
      apply uses_transaction _ fun action h => hrest action _ h
      refine Call.uses_bind (uses_execute fun h => by cases h) fun row => ?_
      refine Call.uses_bind uses_raiseIf fun _ => ?_
      refine Call.uses_bind (uses_execute fun h => by cases h) fun _ => uses_appendEvent _ ?_ ?_
      · exact fun h => by cases h
      · exact fun row h => by cases h
  | recordResult receiptDigest => exact uses_any (fun _ _ => rfl) _
  | terminal => exact uses_any (fun _ _ => rfl) _

/-- A method brings the run on, and asks for a result only when the run has one. -/
theorem leads_operation {operation : Operation}
    (hready : stand.ready = false ↔ operation = .construct)
    (hfinishes : operation.finishes = true →
      executeWire crypto ∈ stand.sends ∧ Effective crypto stand.received) :
    (dispatching crypto image).Leads process (Stands process stand)
      (Dispatch.ledgerCall operation.call) fun _ => Stands process (stand.after operation) := by
  intro world hstands
  have htables : operation ≠ .construct → world.ledger.HasTables := by
    intro hmethod
    apply hstands.tables
    cases hstand : stand.ready with
    | true => rfl
    | false => exact absurd (hready.mp hstand) hmethod
  have hsafe := @ended_safe image process operation world.ledger hstands.idle htables
  apply (safe_ledger (operation_uses operation) _ hsafe hstands.toSpoken).imp
  · rintro outcome after hsound ⟨hended, hspoken⟩ value rfl
    cases operation with
    | construct =>
        exact ⟨⟨hspoken.sends, hspoken.received, fun _ => hended.1 rfl, hspoken.consumed⟩,
          hended.2⟩
    | consume =>
        refine ⟨⟨hspoken.sends, hspoken.received, hspoken.tables, fun _ => ?_⟩, hended.2.2⟩
        have howes := hended.2.1 rfl rfl
        rw [World.OwesConsume] at howes
        omega
    | prepare | recordResult | terminal => exact ⟨hspoken, hended.2.2⟩
  · intro action hallowed hfinish
    exact hfinishes (hallowed hfinish)

/-! ## The channel -/

section Channel

open Dispatch Transport

/-- What a run sends is what it may send. -/
theorem leads_sendAll {bytes : Bytes}
    (hpermitted : bytes = executeWire crypto → stand.consumed = true ∧
      executeWire crypto ∉ stand.sends ∧ prepareWire crypto ∈ stand.sends ∧
        Answered crypto stand.received) :
    (dispatching crypto image).Leads process (Stands process stand)
      (channelCall (ask (.sendAll bytes))) fun _ => Stands process (stand.sending bytes) := by
  apply Interference.leads_execute stands_stable fun _ => stands_stable
  intro before reply after hsound hstands h
  cases h with
  | aside haction => cases haction
  | sent =>
      refine ⟨keeps_sent hsound ?_, fun value _ => ⟨⟨?_, ?_, ?_, ?_⟩, ?_⟩⟩
      · intro hbytes
        obtain ⟨hconsumed, hnew, hprepare, hanswered⟩ := hpermitted hbytes
        rw [hstands.sends, hstands.received, List.count_eq_zero_of_not_mem hnew]
        exact ⟨hstands.consumed hconsumed, hprepare, hanswered⟩
      · rw [RunWorld.sends_sent, if_pos rfl, hstands.sends]
        rfl
      · exact hstands.received
      · exact hstands.tables
      · exact hstands.consumed
      · exact hstands.idle

/-- A read takes down what it returns. -/
theorem leads_askRecv {count : Nat} :
    (dispatching crypto image).Leads process (Stands process stand)
      (channelCall (ask (.recv count))) fun chunk world =>
        (Option.getD chunk []).length ≤ count ∧
          Stands process (stand.receiving (Option.getD chunk [])) world := by
  apply Interference.leads_execute stands_stable fun _ => stands_stable.fact
  intro before reply after hsound hstands h
  cases h with
  | aside haction => cases haction
  | @received _ chunk hchunk =>
      refine ⟨keeps_received chunk hsound, ?_⟩
      intro value hvalue
      cases hvalue
      refine ⟨hchunk, ⟨hstands.sends, ?_, hstands.tables, hstands.consumed⟩, hstands.idle⟩
      rw [RunWorld.received_received, if_pos rfl, hstands.received]
      rfl
  | silent hreply =>
      refine ⟨keeps_aside hsound, ?_⟩
      intro value hvalue
      cases value with
      | some chunk => exact absurd hvalue (hreply chunk)
      | none =>
          rw [Option.getD_none, Stand.receiving_nil]
          exact ⟨Nat.zero_le count, hstands⟩

/-- A receive returns at most the bytes asked for, and they count as received. -/
theorem leads_recv {count : Nat} :
    (dispatching crypto image).Leads process (Stands process stand) (channelCall (recv count))
      fun chunk world => chunk.length ≤ count ∧ Stands process (stand.receiving chunk) world := by
  rw [channelCall, recv, Call.inject_bind]
  apply Interference.leads_bind leads_askRecv
  intro chunk
  cases chunk with
  | none => exact Interference.leads_throw
  | some chunk => exact Interference.leads_pure stands_stable.fact fun _ => id

/-- The loop of `recv_exact` takes down all that it returns. -/
theorem leads_recvRemaining (chunks : List Bytes) (remaining : Nat) :
    (dispatching crypto image).Leads process (Stands process stand)
      (channelCall (recvRemaining chunks remaining)) fun result world => ∃ bytes,
        (result = chunks.flatten ++ bytes ∧ bytes.length = remaining) ∧
          Stands process (stand.receiving bytes) world := by
  induction remaining using Nat.strongRecOn generalizing chunks stand with
  | ind remaining ih =>
      rw [recvRemaining]
      by_cases hremaining : remaining = 0
      · rw [if_pos hremaining]
        refine Interference.leads_pure stands_stable fun world hworld => ?_
        refine ⟨[], ⟨(List.append_nil _).symm, hremaining.symm⟩, ?_⟩
        rwa [Stand.receiving_nil]
      · rw [if_neg hremaining, channelCall, Call.inject_bind]
        apply Interference.leads_bind leads_recv
        intro chunk
        apply Interference.leads_fact
        intro hchunk
        split
        next => exact Interference.leads_throw
        next hnonempty =>
          have hpos := List.length_pos_iff.mpr hnonempty
          apply (ih (remaining - chunk.length) (by omega) (chunks ++ [chunk])).weaken fun _ => id
          rintro result world ⟨bytes, ⟨rfl, hlength⟩, hworld⟩
          refine ⟨chunk ++ bytes, ⟨by simp, ?_⟩, ?_⟩
          · rw [List.length_append, hlength]
            omega
          · rwa [Stand.receiving_receiving] at hworld

/-- An exact receive returns as many bytes as asked for. -/
theorem leads_recvExact (count : Nat) :
    (dispatching crypto image).Leads process (Stands process stand)
      (channelCall (recvExact count)) fun bytes world =>
        bytes.length = count ∧ Stands process (stand.receiving bytes) world := by
  apply (leads_recvRemaining [] count).weaken fun _ => id
  rintro result world ⟨bytes, ⟨rfl, hlength⟩, hworld⟩
  exact ⟨hlength, hworld⟩

/-- A receipt that is accepted has been received. -/
theorem leads_recvReceipt {status : Nat} {digest : Bytes} :
    (dispatching crypto image).Leads process (Stands process stand)
      (channelCall (recvReceipt crypto status digest)) fun _ world => ∃ wire,
        Receipt crypto status digest wire ∧ Stands process (stand.receiving wire) world := by
  have hsize : receiptCoreSize + receiptSignatureBytes < 256 ^ 2 := by decide
  rw [channelCall, recvReceipt, Call.inject_bind]
  apply Interference.leads_bind (leads_recvExact 2)
  intro counted
  apply Interference.leads_fact
  intro hcounted
  dsimp only
  split
  next => exact Interference.leads_throw
  next hcount =>
    rw [not_or, not_not] at hcount
    rw [Call.inject_bind]
    apply Interference.leads_bind (leads_recvExact _)
    intro raw
    apply Interference.leads_fact
    intro _
    cases hparse : parseReceipt crypto raw status digest with
    | error raised => exact Interference.leads_throw
    | ok value =>
        have hreceipt := parseReceipt_eq_ok_iff.mp hparse
        rw [← (beValue_eq_iff hcounted hsize).mp hcount.1] at hreceipt
        refine Interference.leads_pure stands_stable fun world hworld => ?_
        rw [Stand.receiving_receiving] at hworld
        exact ⟨counted ++ raw, hreceipt, hworld⟩

/-- The loop of `drain_uart_startup_noise` takes down all that it returns. -/
theorem leads_drain (drained : Bytes) :
    (dispatching crypto image).Leads process (Stands process stand)
      (channelCall (drain drained)) fun result world => ∃ bytes,
        result = drained ++ bytes ∧ Stands process (stand.receiving bytes) world := by
  have hstop : ∀ drained stand,
      (dispatching crypto image).Leads process (Stands process stand)
        (pure drained : RunCall Bytes) fun result world => ∃ bytes,
          result = drained ++ bytes ∧ Stands process (stand.receiving bytes) world := by
    intro drained stand
    refine Interference.leads_pure stands_stable fun world hworld => ?_
    exact ⟨[], (List.append_nil drained).symm, stand.receiving_nil.symm ▸ hworld⟩
  induction hroom : 64 - drained.length using Nat.strongRecOn generalizing drained stand with
  | ind room ih =>
      rw [drain]
      by_cases hdrained : drained.length < 64
      · rw [if_pos hdrained, channelCall, Call.inject_bind]
        apply Interference.leads_bind leads_askRecv
        intro received
        apply Interference.leads_fact
        intro _
        cases received with
        | none =>
            rw [Option.getD_none, Stand.receiving_nil]
            exact hstop drained stand
        | some chunk =>
            dsimp only
            split
            next => exact Interference.leads_throw
            next hchunk =>
              have hpos := List.length_pos_iff.mpr hchunk
              have hlength := @List.length_append UInt8 drained chunk
              apply (ih _ (by omega) (drained ++ chunk) rfl).weaken fun _ => id
              rintro result world ⟨bytes, rfl, hworld⟩
              refine ⟨chunk ++ bytes, List.append_assoc _ _ _, ?_⟩
              rwa [Stand.receiving_receiving] at hworld
      · rw [if_neg hdrained]
        exact hstop drained stand

/-- The noise at startup is nothing or one byte. -/
theorem leads_drainUartStartupNoise :
    (dispatching crypto image).Leads process (Stands process stand)
      (channelCall drainUartStartupNoise) fun noise world =>
        noise ∈ ([[], [0xff]] : List Bytes) ∧ Stands process (stand.receiving noise) world := by
  have hset : ∀ milliseconds stand, (dispatching crypto image).Leads process
      (Stands process stand) (channelCall (ask (.setTimeout milliseconds)))
        fun _ => Stands process stand :=
    fun milliseconds stand => leads_aside (Call.uses_execute rfl)
  rw [channelCall, drainUartStartupNoise, Call.inject_bind]
  apply Interference.leads_bind (hset 50 stand)
  intro _
  rw [Call.inject_bind]
  apply Interference.leads_bind
  · rw [Call.inject_ensuring]
    apply Interference.leads_ensuring fun noise =>
      @stands_stable crypto image process (stand.receiving noise)
    · apply (leads_drain []).weaken fun _ => id
      rintro noise world ⟨bytes, rfl, hworld⟩
      exact hworld
    · intro noise
      exact hset 20000 (stand.receiving noise)
    · exact leads_cleanup (Call.uses_execute (.inl rfl))
  · intro noise
    split
    next => exact Interference.leads_throw
    next hnoise =>
      rw [not_not] at hnoise
      exact Interference.leads_pure stands_stable fun world hworld => ⟨hnoise, hworld⟩

end Channel

end Rules

end Oasi.Broker
