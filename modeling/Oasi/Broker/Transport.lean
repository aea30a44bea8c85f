import Oasi.Broker.Wire
import Oasi.Foundation.Program

/-! # Receiving over the channel

The broker reads receipts from a stream socket, which cuts what the guest sends
into pieces as it likes. However the bytes arrive, a receipt is accepted when they
are one, and nothing behind it is read.
-/

namespace Oasi.Broker

/-- What is asked of the socket. -/
inductive ChannelAction where
  /-- `channel.settimeout(...)`, in milliseconds -/
  | setTimeout (milliseconds : Nat)
  | recv (count : Nat)
  | sendAll (bytes : Bytes)
  deriving DecidableEq, Repr

/-- `recv` has no chunk when it times out. -/
abbrev ChannelResult : ChannelAction → Type
  | .recv _ => Option Bytes
  | _ => Unit

abbrev ChannelCall := Call ChannelAction ChannelResult Raised

namespace Transport

def ask (action : ChannelAction) : ChannelCall (ChannelResult action) := Call.execute action

/-- A timeout that nobody catches. -/
def recv (count : Nat) : ChannelCall Bytes := do
  let received : Option Bytes ← ask (.recv count)
  match received with
  | some chunk => pure chunk
  | none => throw .fault

/-- The loop of `recv_exact`. -/
def recvRemaining (chunks : List Bytes) (remaining : Nat) : ChannelCall Bytes :=
  if remaining = 0 then pure chunks.flatten
  else do
    let chunk ← recv remaining
    if _ : chunk = [] then throw (.protocol "transport truncation")
    else recvRemaining (chunks ++ [chunk]) (remaining - chunk.length)
termination_by remaining
decreasing_by
  have hlength := List.length_pos_iff.mpr ‹chunk ≠ []›
  omega

def recvExact (count : Nat) : ChannelCall Bytes := recvRemaining [] count

def ofExcept {Value : Type} : Except Raised Value → ChannelCall Value
  | .ok value => pure value
  | .error raised => throw raised

def recvReceipt (crypto : Ed25519) (status : Nat) (digest : Bytes) : ChannelCall Unit := do
  let counted ← recvExact 2
  let length := beValue counted
  if length ≠ receiptCoreSize + receiptSignatureBytes ∨ length > maxFrame then
    throw (.protocol ("receipt prefix length=" ++ length.repr ++ " raw=" ++ hexOf counted))
  else do
    let raw ← recvExact length
    ofExcept (parseReceipt crypto raw status digest)

/-- The loop of `drain_uart_startup_noise`. -/
def drain (drained : Bytes) : ChannelCall Bytes :=
  if drained.length < 64 then do
    let received : Option Bytes ← ask (.recv (64 - drained.length))
    match received with
    | none => pure drained
    | some chunk =>
        if _ : chunk = [] then throw (.protocol "transport closed during startup drain")
        else drain (drained ++ chunk)
  else pure drained
termination_by 64 - drained.length
decreasing_by
  have hlength := List.length_pos_iff.mpr ‹chunk ≠ []›
  rw [List.length_append]
  omega

def drainUartStartupNoise : ChannelCall Bytes := do
  ask (.setTimeout 50)
  let drained ← (drain []).ensuring (ask (.setTimeout 20000))
  if drained ∉ [[], [0xff]] then
    throw (.protocol ("unexpected uart startup noise=" ++ hexOf drained))
  else return drained

end Transport

/-! ## What arrives -/

/-- What a read finds: some bytes, or nothing until it times out. -/
inductive Arrival where
  | segment (bytes : Bytes) (harrives : bytes ≠ [])
  | silence

/-- One action on a channel, which is closed behind the last arrival. -/
def ChannelAction.perform : (action : ChannelAction) → List Arrival →
    Except Raised (ChannelResult action) × List Arrival
  | .recv _, [] => (.ok (some []), [])
  | .recv _, .silence :: later => (.ok none, later)
  | .recv count, .segment bytes harrives :: later =>
      if hfits : bytes.length ≤ count then (.ok (some bytes), later)
      else
        have hrest : bytes.drop count ≠ [] := by
          rw [Ne, List.drop_eq_nil_iff]
          exact hfits
        (.ok (some (bytes.take count)), .segment (bytes.drop count) hrest :: later)
  | .setTimeout _, arrivals => (.ok (), arrivals)
  | .sendAll _, arrivals => (.ok (), arrivals)

/-- The bytes arrive without silence between them; this is left behind them. -/
inductive Arrives : Bytes → List Arrival → List Arrival → Prop where
  | nothing {arrivals : List Arrival} : Arrives [] arrivals arrivals
  | whole {bytes rest : Bytes} {harrives : bytes ≠ []} {later after : List Arrival}
      (hrest : Arrives rest later after) :
      Arrives (bytes ++ rest) (.segment bytes harrives :: later) after
  | cut {front back : Bytes} {harrives : front ++ back ≠ []} {hback : back ≠ []}
      {later : List Arrival} (hfront : front ≠ []) :
      Arrives front (.segment (front ++ back) harrives :: later) (.segment back hback :: later)

/-- A call that nobody interferes with, on a channel. -/
def ChannelCall.over {Value : Type} (call : ChannelCall Value) (arrivals : List Arrival) :
    Except Raised Value × List Arrival :=
  call.run.run ChannelAction.perform arrivals

/-! ## Running over a channel -/

section Running

variable {arrivals after : List Arrival}

theorem over_bind {Value Other : Type} (call : ChannelCall Other)
    (rest : Other → ChannelCall Value) :
    (call >>= rest).over arrivals =
      match call.over arrivals with
      | (.ok value, later) => (rest value).over later
      | (.error raised, later) => (.error raised, later) := by
  rw [ChannelCall.over, Call.run_bind, Program.run_bind, ChannelCall.over]
  cases Program.run ChannelAction.perform call.run arrivals with
  | mk outcome later => cases outcome <;> rfl

/-- Both halves of a call that comes through. -/
theorem over_bind_eq_ok {Value Other : Type} {call : ChannelCall Other}
    {rest : Other → ChannelCall Value} {value : Value} :
    (call >>= rest).over arrivals = (.ok value, after) ↔
      ∃ first later, call.over arrivals = (.ok first, later) ∧
        (rest first).over later = (.ok value, after) := by
  rw [over_bind]
  cases call.over arrivals with
  | mk outcome later =>
      cases outcome with
      | error raised => simp
      | ok first =>
          constructor
          · intro h
            exact ⟨first, later, rfl, h⟩
          · rintro ⟨other, middle, hfirst, hrest⟩
            cases hfirst
            exact hrest

theorem over_pure_eq_ok {Value : Type} {value result : Value} :
    (pure value : ChannelCall Value).over arrivals = (.ok result, after) ↔
      value = result ∧ arrivals = after := by
  change (Except.ok value, arrivals) = (Except.ok result, after) ↔ _
  rw [Prod.mk.injEq, Except.ok.injEq]

theorem over_ask (action : ChannelAction) :
    (Transport.ask action).over arrivals = action.perform arrivals := rfl

theorem over_throw_ne_ok {Value : Type} {raised : Raised} {value : Value} :
    ¬(throw raised : ChannelCall Value).over arrivals = (.ok value, after) := by
  intro h
  cases h

end Running

/-! ## Exactly so many bytes -/

theorem Arrives.append {first second : Bytes} {arrivals middle after : List Arrival}
    (hfirst : Arrives first arrivals middle) (hsecond : Arrives second middle after) :
    Arrives (first ++ second) arrivals after := by
  induction hfirst with
  | nothing => exact hsecond
  | whole _ ih =>
      rw [List.append_assoc]
      exact .whole (ih hsecond)
  | @cut front back harrives hback later hfront =>
      cases hsecond with
      | nothing =>
          rw [List.append_nil]
          exact .cut hfront
      | whole hrest =>
          rw [← List.append_assoc]
          exact .whole hrest
      | @cut _ rest _ _ _ hsecond =>
          have hpiece : Arrival.segment (front ++ (second ++ rest)) harrives =
              .segment ((front ++ second) ++ rest) (by simp [hfront]) := by
            simp only [List.append_assoc]
          rw [hpiece]
          exact .cut (by simp [hfront])

/-- What arrives may be looked at in two halves. -/
theorem arrives_append_iff {first second : Bytes} {arrivals after : List Arrival} :
    Arrives (first ++ second) arrivals after ↔
      ∃ middle, Arrives first arrivals middle ∧ Arrives second middle after := by
  refine ⟨?_, fun ⟨middle, hfirst, hsecond⟩ => hfirst.append hsecond⟩
  intro h
  generalize hbytes : first ++ second = bytes at h
  induction h generalizing first with
  | nothing =>
      rw [List.append_eq_nil_iff] at hbytes
      obtain ⟨rfl, rfl⟩ := hbytes
      exact ⟨_, .nothing, .nothing⟩
  | @whole bytes rest harrives later after hrest ih =>
      rcases List.append_eq_append_iff.mp hbytes with ⟨tail, htail, hsecond⟩ | ⟨more, hfirst, hmore⟩
      · by_cases hnil : first = []
        · subst hnil htail
          exact ⟨_, .nothing, hsecond ▸ .whole hrest⟩
        · by_cases hend : tail = []
          · subst hend htail hsecond
            have hwhole :
                Arrives (first ++ []) (.segment (first ++ []) harrives :: later) later := by
              simpa using @Arrives.whole (first ++ []) [] harrives later later .nothing
            exact ⟨later, by simpa using hwhole, hrest⟩
          · subst htail hsecond
            exact ⟨.segment tail hend :: later, .cut hnil, .whole hrest⟩
      · obtain ⟨middle, hfront, hback⟩ := ih hmore.symm
        exact ⟨middle, hfirst ▸ .whole hfront, hback⟩
  | @cut front back harrives hback later hfront =>
      subst hbytes
      by_cases hnil : first = []
      · subst hnil
        exact ⟨_, .nothing, .cut hfront⟩
      · by_cases hend : second = []
        · subst hend
          refine ⟨_, ?_, .nothing⟩
          simpa using @Arrives.cut (first ++ []) back harrives hback later hfront
        · have hpiece : Arrival.segment ((first ++ second) ++ back) harrives =
              .segment (first ++ (second ++ back)) (by simp [hnil]) := by
            simp only [List.append_assoc]
          have hrest : second ++ back ≠ [] := by simp [hend]
          exact ⟨.segment (second ++ back) hrest :: later, hpiece ▸ .cut hnil, .cut hend⟩

theorem arrives_nil_iff {arrivals after : List Arrival} :
    Arrives [] arrivals after ↔ arrivals = after := by
  constructor
  · intro h
    generalize hbytes : ([] : Bytes) = bytes at h
    cases h with
    | nothing => rfl
    | @whole bytes rest harrives later after hrest =>
        exact absurd (List.append_eq_nil_iff.mp hbytes.symm).1 harrives
    | cut hfront => exact absurd hbytes.symm hfront
  · intro h
    exact h ▸ .nothing

theorem recv_whole {count : Nat} {bytes : Bytes} {harrives : bytes ≠ []} {later : List Arrival}
    (hfits : bytes.length ≤ count) :
    (Transport.recv count).over (.segment bytes harrives :: later) = (.ok bytes, later) := by
  have hask : (Transport.ask (.recv count)).over (.segment bytes harrives :: later) =
      (.ok (some bytes), later) := by
    rw [over_ask, ChannelAction.perform, dif_pos hfits]
  rw [Transport.recv, over_bind, hask]
  rfl

theorem recv_cut {front back : Bytes} {harrives : front ++ back ≠ []} {hback : back ≠ []}
    {later : List Arrival} :
    (Transport.recv front.length).over (.segment (front ++ back) harrives :: later) =
      (.ok front, .segment back hback :: later) := by
  have hfits : ¬(front ++ back).length ≤ front.length := by
    have hpos := List.length_pos_iff.mpr hback
    rw [List.length_append]
    omega
  have hask : (Transport.ask (.recv front.length)).over
      (.segment (front ++ back) harrives :: later) =
        (.ok (some front), .segment back hback :: later) := by
    rw [over_ask, ChannelAction.perform, dif_neg hfits]
    simp
  rw [Transport.recv, over_bind, hask]
  rfl

/-- What a read returns has arrived. -/
theorem arrives_of_recv {count : Nat} {chunk : Bytes} {arrivals after : List Arrival}
    (hcount : count ≠ 0) (hchunk : chunk ≠ [])
    (h : (Transport.recv count).over arrivals = (.ok chunk, after)) :
    Arrives chunk arrivals after ∧ chunk.length ≤ count := by
  cases arrivals with
  | nil =>
      cases h
      exact absurd rfl hchunk
  | cons arrival later =>
      cases arrival with
      | silence => cases h
      | segment bytes harrives =>
          by_cases hfits : bytes.length ≤ count
          · rw [recv_whole hfits] at h
            cases h
            have hwhole := @Arrives.whole chunk [] harrives after after .nothing
            exact ⟨by simpa using hwhole, hfits⟩
          · -- the read cuts the segment in two
            have hlength : (bytes.take count).length = count := by
              rw [List.length_take]
              omega
            have hfront : bytes.take count ≠ [] := by
              rw [← List.length_pos_iff, hlength]
              omega
            have hback : bytes.drop count ≠ [] := by
              rw [← List.length_pos_iff, List.length_drop]
              omega
            have hpiece : Arrival.segment bytes harrives =
                .segment (bytes.take count ++ bytes.drop count) (by simpa using harrives) := by
              simp only [List.take_append_drop]
            have hcut := @recv_cut (bytes.take count) (bytes.drop count)
              (by simpa using harrives) hback later
            rw [hlength, ← hpiece, h] at hcut
            cases hcut
            exact ⟨hpiece ▸ .cut hfront, Nat.le_of_eq hlength⟩

/-- A read takes its share of what is to arrive. -/
theorem recv_of_arrives {bytes : Bytes} {arrivals after : List Arrival} (hbytes : bytes ≠ [])
    (h : Arrives bytes arrivals after) :
    ∃ chunk rest middle, bytes = chunk ++ rest ∧ chunk ≠ [] ∧
      (Transport.recv bytes.length).over arrivals = (.ok chunk, middle) ∧
        Arrives rest middle after := by
  cases h with
  | nothing => exact absurd rfl hbytes
  | @whole chunk rest harrives later after hrest =>
      have hfits : chunk.length ≤ (chunk ++ rest).length := by simp
      exact ⟨chunk, rest, later, rfl, harrives, recv_whole hfits, hrest⟩
  | cut hfront => exact ⟨bytes, [], _, (List.append_nil _).symm, hbytes, recv_cut, .nothing⟩

/-- The loop of `recv_exact` returns the bytes it was asked for, in one way only. -/
theorem recvRemaining_eq_ok {chunks : List Bytes} {remaining : Nat} {result : Bytes}
    {arrivals after : List Arrival} :
    (Transport.recvRemaining chunks remaining).over arrivals = (.ok result, after) ↔
      ∃ bytes, result = chunks.flatten ++ bytes ∧ bytes.length = remaining ∧
        Arrives bytes arrivals after := by
  induction remaining using Nat.strongRecOn generalizing chunks arrivals with
  | ind remaining ih =>
      rw [Transport.recvRemaining]
      by_cases hremaining : remaining = 0
      · rw [if_pos hremaining, over_pure_eq_ok]
        subst hremaining
        constructor
        · rintro ⟨rfl, rfl⟩
          exact ⟨[], (List.append_nil _).symm, rfl, .nothing⟩
        · rintro ⟨bytes, rfl, hlength, harrives⟩
          rw [List.length_eq_zero_iff] at hlength
          subst hlength
          exact ⟨(List.append_nil _).symm, arrives_nil_iff.mp harrives⟩
      · rw [if_neg hremaining, over_bind_eq_ok]
        constructor
        · rintro ⟨chunk, middle, hrecv, hrest⟩
          split at hrest
          next => exact absurd hrest over_throw_ne_ok
          next hchunk =>
            obtain ⟨hfront, hle⟩ := arrives_of_recv hremaining hchunk hrecv
            have hpos := List.length_pos_iff.mpr hchunk
            obtain ⟨bytes, rfl, hlength, hback⟩ := (ih _ (by omega)).mp hrest
            refine ⟨chunk ++ bytes, by simp, ?_, hfront.append hback⟩
            rw [List.length_append, hlength]
            omega
        · rintro ⟨bytes, rfl, hlength, harrives⟩
          have hbytes : bytes ≠ [] := by
            rintro rfl
            exact hremaining hlength.symm
          obtain ⟨chunk, rest, middle, rfl, hchunk, hrecv, hrest⟩ :=
            recv_of_arrives hbytes harrives
          rw [hlength] at hrecv
          refine ⟨chunk, middle, hrecv, ?_⟩
          have hpos := List.length_pos_iff.mpr hchunk
          rw [List.length_append] at hlength
          rw [dif_neg hchunk, ih _ (by omega)]
          exact ⟨rest, by simp, by omega, hrest⟩

theorem recvExact_eq_ok {count : Nat} {bytes : Bytes} {arrivals after : List Arrival} :
    (Transport.recvExact count).over arrivals = (.ok bytes, after) ↔
      bytes.length = count ∧ Arrives bytes arrivals after := by
  rw [Transport.recvExact, recvRemaining_eq_ok]
  simp

theorem ofExcept_eq_ok {Value : Type} {outcome : Except Raised Value} {value : Value}
    {arrivals after : List Arrival} :
    (Transport.ofExcept outcome).over arrivals = (.ok value, after) ↔
      outcome = .ok value ∧ arrivals = after := by
  cases outcome with
  | error raised => exact iff_of_false over_throw_ne_ok (by simp)
  | ok result => rw [Transport.ofExcept, over_pure_eq_ok, Except.ok.injEq]

/-- A receipt is accepted exactly when it is what arrives, in whatever pieces. -/
theorem recvReceipt_eq_ok {crypto : Ed25519} {status : Nat} {digest : Bytes}
    {arrivals after : List Arrival} :
    (Transport.recvReceipt crypto status digest).over arrivals = (.ok (), after) ↔
      ∃ wire, Receipt crypto status digest wire ∧ Arrives wire arrivals after := by
  have hsize : receiptCoreSize + receiptSignatureBytes < 256 ^ 2 := by decide
  have hbound : ¬receiptCoreSize + receiptSignatureBytes > maxFrame := by decide
  unfold Transport.recvReceipt
  rw [over_bind_eq_ok]
  constructor
  · rintro ⟨counted, later, hcounted, h⟩
    obtain ⟨hlength, hfront⟩ := recvExact_eq_ok.mp hcounted
    dsimp only at h
    split at h
    next => exact absurd h over_throw_ne_ok
    next hcount =>
      rw [not_or, not_not] at hcount
      obtain ⟨raw, last, hraw, hlast⟩ := over_bind_eq_ok.mp h
      obtain ⟨hparse, rfl⟩ := ofExcept_eq_ok.mp hlast
      refine ⟨counted ++ raw, ?_, hfront.append (recvExact_eq_ok.mp hraw).2⟩
      rw [(beValue_eq_iff hlength hsize).mp hcount.1]
      exact parseReceipt_eq_ok_iff.mp hparse
  · rintro ⟨wire, hreceipt, harrives⟩
    have hdigest := hreceipt.length_digest
    obtain ⟨signature, hsignature, _, rfl⟩ := hreceipt.signed
    obtain ⟨middle, hfront, hback⟩ := arrives_append_iff.mp harrives
    have hcounted : beValue (beBytes 2 (receiptCoreSize + receiptSignatureBytes)) =
        receiptCoreSize + receiptSignatureBytes :=
      (beValue_eq_iff (length_beBytes 2 _) hsize).mpr rfl
    refine ⟨_, middle, recvExact_eq_ok.mpr ⟨length_beBytes 2 _, hfront⟩, ?_⟩
    rw [hcounted, if_neg (by simp [hbound]), over_bind_eq_ok]
    refine ⟨_, after, recvExact_eq_ok.mpr ⟨?_, hback⟩, ?_⟩
    · rw [List.length_append, length_receiptCore hdigest, hsignature]
    · exact ofExcept_eq_ok.mpr ⟨parseReceipt_eq_ok_iff.mpr hreceipt, rfl⟩

end Oasi.Broker
