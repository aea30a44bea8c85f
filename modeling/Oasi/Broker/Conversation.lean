import Oasi.Broker.Dispatch
import Oasi.Broker.Origins
import Oasi.Foundation.Processes
import Oasi.Foundation.Triples

/-! # Runs that share a ledger

Any number of runs of the broker share one ledger; each talks to a guest of its own.
Whatever the environment answers, each action of a run keeps what the runs keep
together: an execute frame is only sent for a consumption that is committed and after
the guest has answered, and a result is only asked for after it has answered again.
-/

namespace Oasi.Broker

/-- What passes over a channel, as the broker sees it. -/
inductive Exchange where
  /-- `sendall` was called: any part of the bytes may have gone out. -/
  | sent (process : Handle) (bytes : Bytes)
  | received (process : Handle) (chunk : Bytes)

structure RunWorld where
  ledger : World
  /-- What has passed over the channels, latest first; nothing reads it. -/
  journal : List Exchange

namespace RunWorld

/-- Before any run. -/
def start : RunWorld := ⟨.empty, []⟩

def note (world : RunWorld) (exchange : Exchange) : RunWorld :=
  { world with journal := exchange :: world.journal }

/-- What a run has sent, latest first. -/
def sends (world : RunWorld) (process : Handle) : List Bytes :=
  world.journal.filterMap fun
    | .sent other bytes => if other = process then some bytes else none
    | .received _ _ => none

/-- What a run has received. -/
def received (world : RunWorld) (process : Handle) : Bytes :=
  (world.journal.filterMap fun
    | .sent _ _ => none
    | .received other chunk => if other = process then some chunk else none).reverse.flatten

/-- The runs that have sent these bytes, latest first. -/
def senders (world : RunWorld) (wire : Bytes) : List Handle :=
  world.journal.filterMap fun
    | .sent process bytes => if bytes = wire then some process else none
    | .received _ _ => none

end RunWorld

/-- The actions that touch neither the ledger nor the bytes on the channel. -/
def RunAction.aside : RunAction → Bool
  | .ledger _ | .channel (.recv _) | .channel (.sendAll _) | .closeLedger => false
  | _ => true

/-- One action of a run. What the guest and the system answer is open. -/
inductive RunActs (image : Database → Bytes) (process : Handle) (before : RunWorld) :
    (action : RunAction) → RunReply action → RunWorld → Prop where
  | ledger {action : Action} {reply : Reply action} {after : World}
      (hacts : Acts image process before.ledger action reply after) :
      RunActs image process before (.ledger action) reply { before with ledger := after }
  | received {count : Nat} {chunk : Bytes} (hchunk : chunk.length ≤ count) :
      RunActs image process before (.channel (.recv count)) (.ok (some chunk))
        (before.note (.received process chunk))
  | silent {count : Nat} {reply : RunReply (.channel (.recv count))}
      (hreply : ∀ chunk, reply ≠ .ok (some chunk)) :
      RunActs image process before (.channel (.recv count)) reply before
  | sent {bytes : Bytes} {reply : RunReply (.channel (.sendAll bytes))} :
      RunActs image process before (.channel (.sendAll bytes)) reply
        (before.note (.sent process bytes))
  | closed {reply : RunReply .closeLedger} :
      RunActs image process before .closeLedger reply
        { before with ledger := before.ledger.release process }
  | aside {action : RunAction} {reply : RunReply action} (haction : action.aside = true) :
      RunActs image process before action reply before

/-! ## The frames of a run -/

section Frames

variable (crypto : Ed25519)

/-- `prepare_digest` -/
def prepareDigest : Bytes := sha256 (rawFrame crypto kindPrepare preparePayload)

/-- `prepare_wire` -/
def prepareWire : Bytes := framed (rawFrame crypto kindPrepare preparePayload)

/-- `execute_wire` -/
def executeWire : Bytes := framed (rawFrame crypto kindExecute (prepareDigest crypto))

theorem prepare_fits : FrameFits (kindPrepare, preparePayload) := ⟨.inl rfl, by decide⟩

theorem execute_fits : FrameFits (kindExecute, prepareDigest crypto) := by
  refine ⟨.inr rfl, ?_⟩
  dsimp only
  rw [prepareDigest, length_sha256]
  decide

theorem signedFrame_prepare :
    signedFrame crypto kindPrepare preparePayload =
      .ok (prepareWire crypto, prepareDigest crypto) :=
  signedFrame_eq_ok.mpr ⟨prepare_fits, rfl, rfl⟩

theorem signedFrame_execute :
    signedFrame crypto kindExecute (prepareDigest crypto) =
      .ok (executeWire crypto, sha256 (rawFrame crypto kindExecute (prepareDigest crypto))) :=
  signedFrame_eq_ok.mpr ⟨execute_fits crypto, rfl, rfl⟩

theorem prepareWire_ne_executeWire : prepareWire crypto ≠ executeWire crypto := by
  intro h
  have hwires : prepareWire crypto ++ ([] : Bytes) = executeWire crypto ++ [] := by rw [h]
  have hkinds := (framed_selfDelimiting crypto prepare_fits (execute_fits crypto) hwires).1
  cases hkinds

/-! ## What the guest has answered -/

/-- What a run has received starts with a receipt of the prepare frame, behind the noise of
the channel. -/
def Answered (received : Bytes) : Prop :=
  ∃ noise ∈ ([[], [0xff]] : List Bytes), ∃ wire,
    Receipt crypto statusPrepared (prepareDigest crypto) wire ∧ noise ++ wire <+: received

/-- Behind it comes a receipt of the effect. -/
def Effective (received : Bytes) : Prop :=
  ∃ noise ∈ ([[], [0xff]] : List Bytes), ∃ wire effect,
    Receipt crypto statusPrepared (prepareDigest crypto) wire ∧
      Receipt crypto statusEffectReceipt (prepareDigest crypto) effect ∧
        noise ++ wire ++ effect <+: received

variable {crypto} {received : Bytes}

theorem Answered.append (h : Answered crypto received) (more : Bytes) :
    Answered crypto (received ++ more) := by
  obtain ⟨noise, hnoise, wire, hwire, hfront⟩ := h
  exact ⟨noise, hnoise, wire, hwire, hfront.trans (List.prefix_append _ _)⟩

theorem Effective.append (h : Effective crypto received) (more : Bytes) :
    Effective crypto (received ++ more) := by
  obtain ⟨noise, hnoise, wire, effect, hwire, heffect, hfront⟩ := h
  exact ⟨noise, hnoise, wire, effect, hwire, heffect, hfront.trans (List.prefix_append _ _)⟩

end Frames

/-! ## What the runs keep together -/

namespace RunWorld

structure Sound (crypto : Ed25519) (world : RunWorld) : Prop where
  ledger : world.ledger.Sound
  accounted : world.ledger.Accounted
  dispatched : ∀ process, (world.sends process).count (executeWire crypto) ≤
    world.ledger.committers.count process
  ordered : ∀ process, executeWire crypto ∈ world.sends process →
    prepareWire crypto ∈ world.sends process ∧ Answered crypto (world.received process)
  finished : ∀ process ∈ world.ledger.finishers,
    executeWire crypto ∈ world.sends process ∧ Effective crypto (world.received process)

/-- What other runs leave alone. -/
structure Leaves (process : Handle) (before after : RunWorld) : Prop where
  ledger : World.Leaves process before.ledger after.ledger
  sends : after.sends process = before.sends process
  received : after.received process = before.received process

theorem Leaves.refl (process : Handle) (world : RunWorld) : Leaves process world world :=
  ⟨.refl process world.ledger, rfl, rfl⟩

theorem Leaves.trans {process : Handle} {first second third : RunWorld}
    (hfirst : Leaves process first second) (hsecond : Leaves process second third) :
    Leaves process first third :=
  ⟨hfirst.ledger.trans hsecond.ledger, hsecond.sends.trans hfirst.sends,
    hsecond.received.trans hfirst.received⟩

theorem sends_sent (world : RunWorld) (process other : Handle) (bytes : Bytes) :
    (world.note (.sent process bytes)).sends other =
      if process = other then bytes :: world.sends other else world.sends other := by
  rw [sends, note, List.filterMap_cons]
  dsimp only
  by_cases hprocess : process = other
  · rw [if_pos hprocess, if_pos hprocess]
    rfl
  · rw [if_neg hprocess, if_neg hprocess]
    rfl

theorem received_sent (world : RunWorld) (process other : Handle) (bytes : Bytes) :
    (world.note (.sent process bytes)).received other = world.received other := rfl

theorem received_received (world : RunWorld) (process other : Handle) (chunk : Bytes) :
    (world.note (.received process chunk)).received other =
      if process = other then world.received other ++ chunk else world.received other := by
  rw [received, note, List.filterMap_cons]
  dsimp only
  by_cases hprocess : process = other
  · rw [if_pos hprocess, if_pos hprocess]
    dsimp only
    rw [List.reverse_cons, List.flatten_append, List.flatten_singleton]
    rfl
  · rw [if_neg hprocess, if_neg hprocess]
    rfl

end RunWorld

/-- Runs that share a ledger, with errors of the environment. -/
def dispatching (crypto : Ed25519) (image : Database → Bytes) :
    Interference Handle RunWorld RunAction RunReply where
  Performs := RunActs image
  Invariant := RunWorld.Sound crypto
  Rely := RunWorld.Leaves
  rely_refl := RunWorld.Leaves.refl
  rely_trans := RunWorld.Leaves.trans

end Oasi.Broker
