import Oasi.Broker.Consumption
import Oasi.Broker.Readings
import Oasi.Broker.RunRules

/-! # One effect over all runs

Whatever runs of the broker are started on one ledger, however their actions interleave
and wherever they are cut off, at most one execute frame is ever sent, and what the
ledger says about the attempt is true of what has passed over the channels.
-/

namespace Oasi.Broker

/-! ## The actions of the parts of a run -/

namespace Dispatch

/-- Neither the ledger nor the bytes on the channel are touched. -/
def Aside {Value : Type} (call : RunCall Value) : Prop :=
  call.run.Uses fun action => action.aside = true

/-- An action aside is a call aside. -/
theorem aside_ask {action : RunAction} (h : action.aside = true) : Aside (ask action) :=
  Call.uses_execute h

/-- Two calls aside, one after the other, stay aside. -/
theorem aside_bind {First Second : Type} {call : RunCall First} {rest : First → RunCall Second}
    (hcall : Aside call) (hrest : ∀ value, Aside (rest value)) : Aside (call >>= rest) :=
  Call.uses_bind hcall hrest

theorem aside_pure {Value : Type} (value : Value) : Aside (pure value) := trivial

theorem aside_throw {Value : Type} (raised : Raised) : Aside (throw raised : RunCall Value) :=
  trivial

/-- The loop that waits for the channel stays aside. -/
theorem aside_acceptLoop (rounds : Nat) : Aside (acceptLoop rounds) := by
  induction rounds with
  | zero => exact aside_throw _
  | succ rounds ih =>
      apply aside_bind (aside_ask rfl)
      intro code
      cases code with
      | some code => exact aside_throw _
      | none =>
          apply aside_bind (aside_ask rfl)
          intro accepted
          cases accepted with
          | true => exact ⟨rfl, fun _ => trivial⟩
          | false => exact ih

/-- To accept the channel is no matter of ledger or frames. -/
theorem aside_acceptQemuChannel (rounds : Nat) : Aside (acceptQemuChannel rounds) :=
  aside_bind (aside_ask rfl) fun _ => aside_acceptLoop rounds

/-- To read the log is no matter of ledger or frames. -/
theorem aside_currentLog : Aside currentLog := by
  apply aside_bind (aside_ask rfl)
  intro present
  cases present with
  | true => exact aside_ask rfl
  | false => exact aside_pure _

/-- To wait for markers is no matter of ledger or frames. -/
theorem aside_waitForMarkers (markers : List Bytes) (before late : String) (rounds : Nat) :
    Aside (waitForMarkers markers before late rounds) := by
  induction rounds with
  | zero => exact aside_throw _
  | succ rounds ih =>
      apply aside_bind aside_currentLog
      intro data
      split
      next => exact aside_pure _
      next =>
        apply aside_bind (aside_ask rfl)
        intro code
        cases code with
        | some code => exact aside_throw _
        | none => exact aside_bind (aside_ask rfl) fun _ => ih

/-- To wait for the guest is no matter of ledger or frames. -/
theorem aside_waitForGuestReady (rounds : Nat) : Aside (waitForGuestReady rounds) :=
  aside_bind (aside_waitForMarkers _ _ _ rounds) fun _ => aside_pure _

/-- To stop the guest is no matter of ledger or frames. -/
theorem aside_stopIfRunning : Aside stopIfRunning := by
  apply aside_bind (aside_ask rfl)
  intro code
  cases code with
  | some code => exact aside_pure _
  | none =>
      apply aside_bind (aside_ask rfl)
      intro _
      apply aside_bind (aside_ask rfl)
      intro ended
      cases ended with
      | true => exact aside_pure _
      | false =>
          apply aside_bind (aside_ask rfl)
          intro _
          apply aside_bind (aside_ask rfl)
          intro ended
          cases ended with
          | true => exact aside_pure _
          | false => exact aside_throw _

/-- To check the peer is no matter of ledger or frames. -/
theorem aside_checkPeer : Aside checkPeer := by
  apply aside_bind (aside_ask rfl)
  intro supported
  cases supported with
  | false => exact aside_pure _
  | true =>
      apply aside_bind (aside_ask rfl)
      intro credentials
      cases credentials with
      | none => exact aside_pure _
      | some credentials =>
          apply aside_bind (aside_ask rfl)
          intro pid
          split
          next => exact aside_throw _
          next =>
            apply aside_bind (aside_ask rfl)
            intro uid
            split
            next => exact aside_throw _
            next => exact aside_pure _

/-- To launch the guest is no matter of ledger or frames. -/
theorem aside_launch : Aside launch := by
  apply aside_bind (aside_ask rfl)
  intro _
  apply aside_bind (aside_ask rfl)
  intro _
  apply aside_bind (aside_ask rfl)
  intro _
  exact Call.uses_tryCatch (aside_ask rfl) fun raised =>
    aside_bind (aside_ask rfl) fun _ => aside_throw raised

/-- What may be left out cleans up as well. -/
theorem optionally_cleans {condition : Bool} {call : RunCall Unit} (h : Aside call) :
    (optionally condition call).run.Uses RunAction.cleans := by
  cases condition with
  | true => exact h.imp fun action => .inl
  | false => exact trivial

/-- The clean-up only closes and stops. -/
theorem cleanup_cleans (acquired : Acquired) : (cleanup acquired).run.Uses RunAction.cleans := by
  refine Call.uses_bind (optionally_cleans (aside_ask rfl)) fun _ => ?_
  refine Call.uses_bind (optionally_cleans (aside_ask rfl)) fun _ => ?_
  refine Call.uses_bind (optionally_cleans aside_stopIfRunning) fun _ => ?_
  exact Call.uses_execute (.inr rfl)

end Dispatch

/-- `state()` neither begins a transaction nor writes rows. -/
theorem state_quiet : (Ledger.state).run.Uses Action.quiet :=
  Call.uses_bind (uses_execute ⟨rfl, by simp⟩) fun _ => trivial

/-- `recovery_action()` neither begins a transaction nor writes rows. -/
theorem recoveryAction_quiet : (Ledger.recoveryAction).run.Uses Action.quiet :=
  Call.uses_bind state_quiet fun _ => trivial

/-- `verify()` neither begins a transaction nor writes rows. -/
theorem verify_quiet : (Ledger.verify).run.Uses Action.quiet := by
  refine Call.uses_bind (uses_execute ⟨rfl, by simp⟩) fun integrity => ?_
  refine Call.uses_bind uses_raiseIf fun _ => ?_
  refine Call.uses_bind (uses_execute ⟨rfl, by simp⟩) fun rows => ?_
  refine Call.uses_bind (uses_orRaise _) fun _ => ?_
  refine Call.uses_bind (uses_execute ⟨rfl, by simp⟩) fun row => ?_
  exact Call.uses_bind (uses_orRaise _) fun _ => uses_raiseIf

/-! ## A run keeps to the rules -/

section Run

open Dispatch

variable {crypto : Ed25519} {image : Database → Bytes} {process : Handle} {stand : Stand}

/-- A body with its clean-up leads where the body leads. -/
theorem leads_guarded {Value : Type} {acquired : Acquired} {body : RunCall Value}
    {pre : RunWorld → Prop} {post : Value → RunWorld → Prop}
    (hstable : ∀ value, (dispatching crypto image).Stable process (post value))
    (hbody : (dispatching crypto image).Leads process pre body post) :
    (dispatching crypto image).Leads process pre (guarded acquired body) post := by
  apply Interference.leads_tryCatch hstable hbody
  intro raised
  apply Interference.leads_bind (leads_cleanup (cleanup_cleans acquired))
  intro _
  exact Interference.leads_throw

/-- The refusal of a replay leaves the run where it stands. -/
theorem leads_refuseReplay (args : Arguments) :
    (dispatching crypto image).Leads process (Stands process stand) (refuseReplay args)
      fun _ => Stands process stand := by
  apply Interference.leads_bind (leads_query (uses_execute ⟨rfl, by simp⟩))
  intro ledger
  cases ledger with
  | true => exact Interference.leads_throw
  | false =>
      apply leads_aside
      apply aside_bind (aside_ask rfl)
      intro socket
      cases socket with
      | true => exact aside_throw _
      | false =>
          apply aside_bind (aside_ask rfl)
          intro log
          cases log with
          | true => exact aside_throw _
          | false => exact aside_pure _

/-- A value that is there leaves the run where it stands. -/
theorem leads_ofExcept {Value : Type} {outcome : Except Raised Value} {value : Value}
    (h : outcome = .ok value) :
    (dispatching crypto image).Leads process (Stands process stand) (Dispatch.ofExcept outcome)
      fun result world => result = value ∧ Stands process stand world := by
  subst h
  exact Interference.leads_pure stands_stable fun world hworld => ⟨rfl, hworld⟩

/-- A method on a ledger that is open. -/
theorem leads_method {operation : Operation} (hready : stand.ready = true)
    (hmethod : operation ≠ .construct)
    (hfinishes : operation.finishes = true →
      executeWire crypto ∈ stand.sends ∧ Effective crypto stand.received) :
    (dispatching crypto image).Leads process (Stands process stand)
      (Dispatch.ledgerCall operation.call) fun _ => Stands process (stand.after operation) := by
  apply leads_operation _ hfinishes
  rw [hready]
  exact iff_of_false (by simp) hmethod

/-- The conversation sends and receives what the invariant allows. -/
theorem leads_converse (args : Arguments) (patience : Patience) :
    (dispatching crypto image).Leads process (Stands process ⟨true, false, [], []⟩)
      (converse crypto args patience (prepareWire crypto) (prepareDigest crypto)
        (executeWire crypto)) fun _ _ => True := by
  apply Interference.leads_bind (leads_aside aside_checkPeer)
  intro peerCredentialStatus
  apply Interference.leads_bind (leads_aside (aside_waitForGuestReady _))
  intro _
  apply Interference.leads_bind leads_drainUartStartupNoise
  intro noise
  apply Interference.leads_fact
  intro hnoise
  apply Interference.leads_bind
    (leads_sendAll fun h => absurd h (prepareWire_ne_executeWire crypto))
  intro _
  apply Interference.leads_bind leads_recvReceipt
  intro _
  apply Interference.leads_some
  intro wire
  apply Interference.leads_fact
  intro hwire
  have hanswered : Answered crypto ([] ++ noise ++ wire) :=
    ⟨noise, hnoise, wire, hwire, List.prefix_rfl⟩
  apply Interference.leads_bind
  · exact @leads_method crypto image process _ .consume rfl (by simp) fun h => by cases h
  intro _
  -- the attempt is consumed and the guest has answered
  apply Interference.leads_bind
  · apply leads_sendAll
    intro _
    refine ⟨rfl, ?_, List.mem_cons_self, hanswered⟩
    intro hmem
    rw [Stand.after] at hmem
    exact prepareWire_ne_executeWire crypto (List.mem_singleton.mp hmem).symm
  intro _
  apply Interference.leads_bind leads_recvReceipt
  intro _
  apply Interference.leads_some
  intro effect
  apply Interference.leads_fact
  intro heffect
  have heffective : Effective crypto ([] ++ noise ++ wire ++ effect) :=
    ⟨noise, hnoise, wire, effect, hwire, heffect, List.prefix_rfl⟩
  apply Interference.leads_bind (leads_aside (aside_waitForMarkers _ _ _ _))
  intro _
  apply Interference.leads_bind (leads_aside aside_stopIfRunning)
  intro _
  apply Interference.leads_bind (leads_aside (aside_ask rfl))
  intro terminalLog
  dsimp only
  apply Interference.leads_bind
  · exact @leads_method crypto image process _ (.recordResult _) rfl (by simp) fun _ =>
      ⟨List.mem_cons_self, heffective⟩
  intro _
  apply Interference.leads_bind
  · exact @leads_method crypto image process _ .terminal rfl (by simp) fun _ =>
      ⟨List.mem_cons_self, heffective⟩
  intro _
  apply Interference.leads_bind (leads_query verify_quiet)
  intro _
  apply Interference.leads_bind (leads_query state_quiet)
  intro state
  apply Interference.leads_bind (leads_query recoveryAction_quiet)
  intro recoveryAction
  apply Interference.leads_bind (leads_aside (aside_ask rfl))
  intro _
  exact Interference.leads_pure stands_stable fun _ _ => trivial

/-- A run that starts from nothing keeps what the runs keep together. -/
theorem leads_runQemu (args : Arguments) (patience : Patience) :
    (dispatching crypto image).Leads process (Stands process .fresh)
      (runQemu crypto args patience) fun _ _ => True := by
  apply Interference.leads_bind (leads_refuseReplay args)
  intro _
  apply Interference.leads_bind (leads_aside (aside_ask rfl))
  intro _
  apply Interference.leads_bind (leads_aside (aside_ask rfl))
  intro _
  apply Interference.leads_bind
  · exact @leads_operation crypto image process _ .construct (by simp [Stand.fresh])
      fun h => by cases h
  intro _
  apply Interference.leads_bind
  · exact @leads_method crypto image process _ .prepare rfl (by simp) fun h => by cases h
  intro _
  apply Interference.leads_bind (leads_ofExcept (signedFrame_prepare crypto))
  intro frame
  apply Interference.leads_fact
  rintro rfl
  apply Interference.leads_bind (leads_ofExcept (signedFrame_execute crypto))
  intro frame
  apply Interference.leads_fact
  rintro rfl
  apply Interference.leads_bind
  · exact leads_guarded (fun _ => stands_stable) (leads_aside (aside_ask rfl))
  intro _
  apply Interference.leads_bind
  · exact leads_guarded (fun _ => stands_stable) (leads_aside aside_launch)
  intro _
  apply Interference.leads_bind
  · apply leads_guarded (fun _ => stands_stable)
    apply Interference.leads_bind (leads_aside (aside_ask rfl))
    intro _
    exact leads_aside (aside_acceptQemuChannel _)
  intro _
  apply Interference.leads_bind
  · exact leads_guarded (fun _ => true_stable) (leads_converse args patience)
  intro outcome
  apply Interference.leads_bind (leads_cleanup (cleanup_cleans _))
  intro _
  exact Interference.leads_pure true_stable fun _ => id

end Run

/-! ## All runs -/

/-- Runs of the broker with any arguments, each of which may be cut off anywhere. -/
def runs (crypto : Ed25519) (image : Database → Bytes) :
    Launching Handle RunWorld RunAction RunReply (Except Raised RunOutcome) where
  Performs := RunActs image
  Program := fun _ program => ∃ args patience,
    program = (Dispatch.runQemu crypto args patience).run
  release := fun process world => { world with ledger := world.ledger.release process }

def runRules (crypto : Ed25519) (image : Database → Bytes) : Guarding (runs crypto image) where
  toInterference := dispatching crypto image
  performs := id
  Untouched := fun process => Stands process .fresh
  untouched_later := fun hstands hlater => stands_stable _ _ hlater hstands
  starts := by
    rintro process program world _ hfresh ⟨args, patience, rfl⟩
    apply (leads_runQemu args patience world hfresh).imp
    intro _ _ _ _
    trivial
  ends := keeps_closed

/-- A world without runs is sound. -/
theorem sound_start (crypto : Ed25519) : RunWorld.start.Sound crypto := by
  constructor
  · exact (governs_start fun _ => []).invariant
  · rintro ⟨row, hrow, _⟩
    cases hrow
  · intro process
    exact Nat.le_refl 0
  · intro process hexecute
    cases hexecute
  · intro process hfinisher
    cases hfinisher

/-- No run has done anything at the start. -/
theorem fresh_start (process : Handle) : Stands process .fresh .start := by
  constructor
  · constructor
    · rfl
    · rfl
    · intro h
      cases h
    · intro h
      cases h
  · intro pending h
    cases h

/-- Every world that runs lead to is sound. -/
theorem sound_of_runs {crypto : Ed25519} {image : Database → Bytes}
    {processes : Processes Handle RunWorld RunAction RunReply (Except Raised RunOutcome)}
    (hreachable : Processes.Reachable (runs crypto image) .start processes) :
    processes.world.Sound crypto :=
  @Guarding.invariant_of_reachable _ _ _ _ _ _ (runRules crypto image) _ _ _ (sound_start crypto)
    fresh_start hreachable

/-- A process is counted among the senders as often as it has sent. -/
theorem count_senders (world : RunWorld) (wire : Bytes) (process : Handle) :
    (world.senders wire).count process = (world.sends process).count wire := by
  unfold RunWorld.senders RunWorld.sends
  induction world.journal with
  | nil => rfl
  | cons exchange earlier ih =>
      rw [List.filterMap_cons, List.filterMap_cons]
      cases exchange with
      | received other chunk => exact ih
      | sent other bytes =>
          dsimp only
          by_cases hother : other = process
          · by_cases hbytes : bytes = wire
            · rw [if_pos hother, if_pos hbytes, hother, hbytes, List.count_cons_self,
                List.count_cons_self, ih]
            · rw [if_pos hother, if_neg hbytes, List.count_cons_of_ne hbytes, ih]
          · rw [if_neg hother]
            split
            next hnone => exact ih
            next owner howner =>
              split at howner
              next =>
                cases howner
                rw [List.count_cons_of_ne hother, ih]
              next => cases howner

/-- The senders are those that have sent. -/
theorem mem_senders {world : RunWorld} {wire : Bytes} {process : Handle} :
    process ∈ world.senders wire ↔ wire ∈ world.sends process := by
  rw [← List.count_pos_iff, count_senders, List.count_pos_iff]

namespace RunWorld.Sound

variable {crypto : Ed25519} {world : RunWorld}

/-- No more frames are sent than consumptions are committed. -/
theorem senders_le (hsound : world.Sound crypto) :
    (world.senders (executeWire crypto)).length ≤ world.ledger.committers.length := by
  apply length_le_of_count_le
  intro process
  rw [count_senders]
  exact hsound.dispatched process

/-- The attempt is consumed at most once, so that at most one frame follows. -/
theorem committers_le (hsound : world.Sound crypto) : world.ledger.committers.length ≤ 1 := by
  obtain ⟨phase, _, hcount⟩ := hsound.ledger.phase
  rw [hcount]
  cases phase <;> simp [Phase.dispatchCount]

/-- Who has sent the frame has committed the one consumption. -/
theorem committers_eq (hsound : world.Sound crypto) {process : Handle}
    (h : process ∈ world.senders (executeWire crypto)) :
    world.ledger.committers = [process] := by
  have hcount := hsound.dispatched process
  have hsent := List.count_pos_iff.mpr (mem_senders.mp h)
  have hmem : process ∈ world.ledger.committers := List.count_pos_iff.mp (by omega)
  have hlength := hsound.committers_le
  match hcommitters : world.ledger.committers with
  | [] => rw [hcommitters] at hmem; cases hmem
  | [other] =>
      rw [hcommitters, List.mem_singleton] at hmem
      rw [hmem]
  | _ :: _ :: _ =>
      rw [hcommitters] at hlength
      simp at hlength

/-- Who has sent the frame is the only one. -/
theorem senders_eq (hsound : world.Sound crypto) {process : Handle}
    (h : process ∈ world.senders (executeWire crypto)) :
    world.senders (executeWire crypto) = [process] := by
  have hlength := Nat.le_trans hsound.senders_le hsound.committers_le
  match hsenders : world.senders (executeWire crypto) with
  | [] => rw [hsenders] at h; cases h
  | [other] =>
      rw [hsenders, List.mem_singleton] at h
      rw [h]
  | _ :: _ :: _ =>
      rw [hsenders] at hlength
      simp at hlength

/-- A ledger with a result stands behind one effect, whose receipt has been received. -/
theorem effective_of_finished (hsound : world.Sound crypto) {phase : Phase}
    (hholds : world.ledger.Holds phase) (hphase : phase.state ∈ finishedStates) :
    ∃ process, world.senders (executeWire crypto) = [process] ∧
      Effective crypto (world.received process) := by
  have hrow : ∃ row ∈ world.ledger.visibleRows, row.Finished := by
    obtain ⟨row, hrow, hstate⟩ : ∃ row, phase.row? = some row ∧ row.state = .text phase.state := by
      cases phase with
      | absent => simp [Phase.state, finishedStates] at hphase
      | _ => exact ⟨_, rfl, rfl⟩
    refine ⟨row, mem_visibleRows_of_committed ?_, _, hphase, hstate⟩
    rw [hholds.attempts, hrow]
    exact List.mem_singleton_self row
  obtain ⟨process, hfinisher⟩ := List.exists_mem_of_ne_nil _ (hsound.accounted hrow)
  obtain ⟨hexecute, heffective⟩ := hsound.finished process hfinisher
  exact ⟨process, hsound.senders_eq (mem_senders.mpr hexecute), heffective⟩

end RunWorld.Sound

/-! ## A run that comes through -/

namespace Fixture

def prepareSignature : Bytes :=
  [0x66, 0x17, 0x5b, 0xf9, 0xd2, 0x9e, 0x17, 0xfb, 0xdb, 0x2c, 0xf1, 0xdc, 0x48, 0x58, 0xb0, 0xee,
    0x72, 0x36, 0x39, 0x6a, 0x2c, 0xc5, 0xfd, 0x5a, 0x0c, 0x16, 0xdf, 0xc5, 0x4b, 0x79, 0x60, 0x8b,
    0xfc, 0x42, 0x6c, 0x0e, 0xec, 0x11, 0xe2, 0x70, 0x8d, 0x41, 0xdb, 0x9c, 0x78, 0xd9, 0x2c, 0xc6,
    0x02, 0xbd, 0x42, 0x9d, 0x6a, 0xdd, 0x84, 0xc7, 0x59, 0x73, 0x5a, 0x4a, 0x71, 0xe1, 0xf1, 0x0e]

def executeSignature : Bytes :=
  [0xd8, 0x85, 0x5f, 0x38, 0x1c, 0xb5, 0xf2, 0x15, 0x80, 0xd0, 0x51, 0x1e, 0xe5, 0xa4, 0x9d, 0x23,
    0xfa, 0xc2, 0x35, 0xa1, 0xce, 0x55, 0x7f, 0x92, 0x5c, 0x53, 0x50, 0x65, 0x2c, 0x4d, 0x45, 0x30,
    0x02, 0x54, 0xd2, 0xea, 0xd8, 0xb9, 0x9f, 0xb5, 0x40, 0x27, 0x05, 0x8b, 0xb2, 0xe7, 0x8c, 0x58,
    0x44, 0x7a, 0x0b, 0x22, 0x4f, 0xfd, 0xc5, 0x6f, 0xe3, 0x8b, 0x55, 0xe1, 0x0e, 0x27, 0xdb, 0x00]

def preparedSignature : Bytes :=
  [0x35, 0xaf, 0x12, 0x81, 0x29, 0xb6, 0x6b, 0x85, 0xee, 0xe6, 0xa5, 0x1f, 0x7b, 0x78, 0x87, 0x47,
    0xce, 0xff, 0x8d, 0xfd, 0xcf, 0x7a, 0xec, 0xc1, 0x7a, 0xa0, 0x0b, 0xdf, 0xa6, 0x06, 0x45, 0x23,
    0xb2, 0x71, 0x07, 0xc3, 0x41, 0xf6, 0x9e, 0xb0, 0x4b, 0x3b, 0x7f, 0x9c, 0x59, 0xec, 0x61, 0x78,
    0xfa, 0xe5, 0x1d, 0x1f, 0x69, 0x25, 0x4c, 0xd5, 0x78, 0xe6, 0x7a, 0x9d, 0x8d, 0x86, 0xe6, 0x04]

def effectSignature : Bytes :=
  [0x7a, 0xff, 0x28, 0xa7, 0xd3, 0x7f, 0x33, 0x5e, 0x0f, 0x9c, 0x2b, 0x01, 0xba, 0x6a, 0x03, 0xe4,
    0xd5, 0x34, 0x0b, 0x3d, 0x59, 0x82, 0x51, 0x31, 0xea, 0x33, 0x7c, 0x50, 0xcd, 0x41, 0x29, 0x0f,
    0x28, 0xb1, 0xaa, 0x74, 0xaf, 0x92, 0x48, 0xb6, 0x23, 0xfd, 0x7d, 0x31, 0x52, 0xb4, 0x40, 0xd4,
    0x49, 0x0c, 0xf5, 0xa6, 0x64, 0x90, 0x9f, 0xb9, 0x64, 0xb2, 0xb9, 0x1c, 0xa1, 0xfb, 0xcf, 0x0b]

/-- The digest of the prepare frame. -/
def digest : Bytes :=
  [0x50, 0x8b, 0x5e, 0xea, 0x8a, 0x2e, 0x07, 0x4c, 0x81, 0x8a, 0x62, 0x5e, 0x2c, 0x69, 0x64, 0x38,
    0xf3, 0x8e, 0xe7, 0xa3, 0x14, 0xe5, 0x92, 0x3a, 0x3a, 0x06, 0xd3, 0xdf, 0xe4, 0xb9, 0xd0, 0xba]

/-- The signatures of the frames and the receipts of a run under the two test keys. -/
def crypto : Ed25519 where
  sign := fun _ message =>
    if message = packHeader kindPrepare preparePayload ++ preparePayload then prepareSignature
    else executeSignature
  verify := fun key signature message =>
    key = guestReceiptFixturePublicKey ∧
      (signature, message) ∈ [(preparedSignature, receiptCore statusPrepared digest),
        (effectSignature, receiptCore statusEffectReceipt digest)]
  length_sign := by
    intro seed message
    split <;> rfl

/-- What the guest sends. -/
def guestStream : Bytes :=
  beBytes 2 (receiptCoreSize + receiptSignatureBytes) ++
    (receiptCore statusPrepared digest ++ preparedSignature) ++
      (beBytes 2 (receiptCoreSize + receiptSignatureBytes) ++
        (receiptCore statusEffectReceipt digest ++ effectSignature))

def guestLog : Bytes :=
  utf8 "OASI2_ED25519_OPENSSL_SELFTEST_PASS" ++ Dispatch.required.flatten

/-- A system and a guest on which nothing fails until the ledger is verified. -/
def respond (process : Handle) : (action : RunAction) → RunWorld → RunReply action × RunWorld
  | .ledger .integrityCheck, world =>
      let happening := .performed process .integrityCheck (.error .fault) world.ledger.database
      (.error .fault, { world with ledger := world.ledger.record happening })
  | .ledger action, world =>
      let performed := perform Database.countChanges process action world.ledger
      let happening := .performed process action performed.1 performed.2.database
      (performed.1, { world with ledger := performed.2.record happening })
  -- the guest has nothing to say until it is asked
  | .channel (.recv 64), world => (.ok none, world)
  | .channel (.recv count), world =>
      let chunk := (guestStream.drop (world.received process).length).take count
      (.ok (some chunk), world.note (.received process chunk))
  | .channel (.sendAll bytes), world => (.ok (), world.note (.sent process bytes))
  | .channel (.setTimeout _), world => (.ok (), world)
  | .closeLedger, world =>
      (.ok (), { world with ledger := world.ledger.release process })
  | .socketExists, world | .hasPeerCredentials, world => (.ok false, world)
  | .logExists, world => (.ok world.ledger.database.isSome, world)
  | .accept, world | .wait, world => (.ok true, world)
  | .peerCredentials, world | .poll, world => (.ok none, world)
  | .processId, world | .userId, world => (.ok 0, world)
  | .readLog, world => (.ok guestLog, world)
  | .makeLedgerParent, world | .makeLogParent, world | .openListener, world | .bind, world
  | .listen, world | .openLog, world | .spawn, world | .closeLog, world
  | .setListenerTimeout _, world | .sleep _, world | .terminate, world | .kill, world
  | .closeChannel, world | .closeListener, world | .print _, world => (.ok (), world)

def args : Dispatch.Arguments := ⟨"fixture", "ledger.sqlite3", "guest.sock", "guest.log"⟩

/-- The world behind the run. -/
def world : RunWorld :=
  ((Dispatch.runQemu crypto args ⟨1, 1, 1⟩).run.run (respond 0) .start).2

/-- What the fixture answers may happen. -/
theorem respond_acts (process : Handle) (action : RunAction) (before : RunWorld) :
    RunActs Database.countChanges process before action (respond process action before).1
      (respond process action before).2 := by
  unfold respond
  split
  case h_1 => exact .ledger (.faulted rfl (by simp))
  case h_2 => exact .ledger (.performed rfl)
  case h_3 => exact .silent fun chunk h => by cases h
  case h_4 => exact .received (List.length_take_le _ _)
  case h_5 => exact .sent
  case h_7 => exact .closed
  all_goals exact .aside rfl

/-- The run is one that may happen. -/
theorem reachable_world :
    ∃ processes, Processes.Reachable (runs crypto Database.countChanges) .start processes ∧
      processes.world = world := by
  have hstarted : Processes.Step (runs crypto Database.countChanges) (.start .start)
      ((Processes.start .start).set 0 (.running (Dispatch.runQemu crypto args ⟨1, 1, 1⟩).run)
        .start) :=
    .starts rfl ⟨args, ⟨1, 1, 1⟩, rfl⟩
  obtain ⟨processes, hreachable, hworld, _⟩ :=
    Processes.reachable_of_run (respond_acts 0) (.single hstarted) (if_pos rfl)
  exact ⟨processes, hreachable, hworld⟩

/-- The frame has gone out, the ledger is closed and its attempt complete. -/
theorem world_complete :
    world.senders (executeWire crypto) = [0] ∧ world.ledger.writer.isNone = true ∧
      (world.ledger.database.any fun database =>
        database.attempts.isSome && database.events.isSome) = true ∧
      (alone Database.countChanges 1 Ledger.recoveryAction world.ledger).1 =
        .ok "COMPLETE_NO_REDISPATCH" := by decide +kernel

end Fixture

/-! ## What is true of all runs -/

/-- At most one execute frame is ever sent: by the run that has consumed the attempt, after
it has sent the prepare frame and received a receipt of it. -/
theorem execute_sent_once {crypto : Ed25519} {image : Database → Bytes}
    {processes : Processes Handle RunWorld RunAction RunReply (Except Raised RunOutcome)}
    (hreachable : Processes.Reachable (runs crypto image) .start processes) :
    (processes.world.senders (executeWire crypto)).length ≤ 1 ∧
      ∀ process ∈ processes.world.senders (executeWire crypto),
        processes.world.ledger.committers = [process] ∧
          process ∈ processes.world.senders (prepareWire crypto) ∧
            Answered crypto (processes.world.received process) := by
  have hsound := sound_of_runs hreachable
  refine ⟨Nat.le_trans hsound.senders_le hsound.committers_le, ?_⟩
  intro process hprocess
  obtain ⟨hprepare, hanswered⟩ := hsound.ordered process (mem_senders.mp hprocess)
  exact ⟨hsound.committers_eq hprocess, mem_senders.mpr hprepare, hanswered⟩

/-- One run comes through, and its frame is the only one. -/
theorem execute_sent_once_by_fixture :
    ∃ processes, Processes.Reachable (runs Fixture.crypto Database.countChanges) .start processes ∧
      processes.world.senders (executeWire Fixture.crypto) = [0] ∧
        processes.world.ledger.committers = [0] ∧
          Answered Fixture.crypto (processes.world.received 0) := by
  obtain ⟨processes, hreachable, hworld⟩ := Fixture.reachable_world
  have hsenders : processes.world.senders (executeWire Fixture.crypto) = [0] :=
    hworld ▸ Fixture.world_complete.1
  obtain ⟨_, hordered⟩ := execute_sent_once hreachable
  obtain ⟨hcommitters, _, hanswered⟩ := hordered 0 (hsenders ▸ List.mem_singleton_self 0)
  exact ⟨processes, hreachable, hsenders, hcommitters, hanswered⟩

/-- What `recovery_action` tells about a ledger that runs have been cut off from is true of
what they have sent and received. -/
theorem recoveryAction_true {crypto : Ed25519} {image : Database → Bytes}
    {processes : Processes Handle RunWorld RunAction RunReply (Except Raised RunOutcome)}
    (hreachable : Processes.Reachable (runs crypto image) .start processes) {handle : Handle}
    (hidle : processes.world.ledger.IdleAt handle) (htables : processes.world.ledger.HasTables) :
    ∃ text, alone image handle Ledger.recoveryAction processes.world.ledger =
        (.ok text, processes.world.ledger) ∧ text ≠ "FAIL_CLOSED" ∧
      (text ∈ ["NO_ACTION", "ABORT_WITHOUT_EFFECT"] →
        processes.world.senders (executeWire crypto) = []) ∧
      (text ∈ ["EMIT_TERMINAL_ONLY", "COMPLETE_NO_REDISPATCH"] →
        ∃ process, processes.world.senders (executeWire crypto) = [process] ∧
          Effective crypto (processes.world.received process)) := by
  have hsound := sound_of_runs hreachable
  obtain ⟨phase, hholds, hcount⟩ := hsound.ledger.phase
  obtain ⟨database, hdatabase, htables⟩ := htables
  have hview : processes.world.ledger.view handle = .ok database := by
    rw [view_of_idle hidle, hdatabase]
    rfl
  have hphase : database.Holds phase := by
    have hsame : processes.world.ledger.database =
        some { database with changes := database.changes } := hdatabase
    exact (holds_of_database hsame).mpr hholds
  refine ⟨phase.recoveryAction, (shows_of_holds hview htables hphase).recoveryAction, ?_, ?_, ?_⟩
  · cases phase <;> simp [Phase.recoveryAction]
  · intro haction
    have hnone : phase.dispatchCount = 0 := by
      cases phase <;> simp_all [Phase.recoveryAction, Phase.dispatchCount]
    have hle := hsound.senders_le
    rw [hcount, hnone] at hle
    exact List.eq_nil_of_length_eq_zero (Nat.le_zero.mp hle)
  · intro haction
    apply hsound.effective_of_finished hholds
    cases phase <;> simp_all [Phase.recoveryAction, Phase.state, finishedStates]

/-- The fixture is complete, so its effect has been confirmed. -/
theorem recoveryAction_true_of_fixture :
    ∃ processes, Processes.Reachable (runs Fixture.crypto Database.countChanges) .start processes ∧
      ∃ process, processes.world.senders (executeWire Fixture.crypto) = [process] ∧
        Effective Fixture.crypto (processes.world.received process) := by
  obtain ⟨processes, hreachable, hworld⟩ := Fixture.reachable_world
  obtain ⟨_, hwriter, hdatabase, hcomplete⟩ := Fixture.world_complete
  rw [← hworld] at hwriter hdatabase hcomplete
  have hidle : processes.world.ledger.IdleAt 1 := by
    intro pending h
    rw [h] at hwriter
    cases hwriter
  have htables : processes.world.ledger.HasTables := by
    obtain ⟨database, hfound, hboth⟩ := (Option.any_eq_true _ _).mp hdatabase
    rw [Bool.and_eq_true] at hboth
    exact ⟨database, hfound, hboth.1, hboth.2⟩
  obtain ⟨text, hshown, _, _, heffective⟩ := recoveryAction_true hreachable hidle htables
  rw [hshown] at hcomplete
  cases hcomplete
  exact ⟨processes, hreachable, heffective (by simp)⟩

end Oasi.Broker
