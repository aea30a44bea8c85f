import Oasi.Foundation.Machine
import Oasi.Model.Authority

/-! # Histories of one authority transaction

Begin, abort and commit calls may follow each other in any order, with any
leases, bodies and requests. The pending flag and the captured lease summarize
such a history: they hold exactly when the latest call that was not a rejected
BEGIN is a successful BEGIN, and they then hold what that BEGIN captured.
-/

namespace Oasi

inductive AuthorityCall where
  | begin (activeLease : Option SafetyLease)
  | abort
  | commit (body : BodyState) (currentLease : Option SafetyLease) (request : CommitRequest)

inductive AuthorityOutcome where
  | begun (result : Except BeginError Unit)
  | aborted (wasPending : Bool)
  | decided (decision : Decision)

/-- Neither a commit nor an abort. -/
def AuthorityCall.IsBegin (call : AuthorityCall) : Prop :=
  ∃ activeLease, call = .begin activeLease

namespace AuthorityTransaction

def authorityMachine : Machine AuthorityTransaction AuthorityCall AuthorityOutcome where
  step transaction call :=
    match call with
    | .begin activeLease =>
        (.begun (transaction.begin activeLease).1, (transaction.begin activeLease).2)
    | .abort => (.aborted transaction.abort.1, transaction.abort.2)
    | .commit body currentLease request =>
        (.decided (transaction.commit body currentLease request).1,
          (transaction.commit body currentLease request).2)

/-- The transaction after a sequence of calls on a new one. -/
def after (calls : List AuthorityCall) : AuthorityTransaction := authorityMachine.run new calls

theorem after_concat_begin (calls : List AuthorityCall) (activeLease : Option SafetyLease) :
    after (calls ++ [.begin activeLease]) = ((after calls).begin activeLease).2 :=
  authorityMachine.run_concat new calls _

theorem after_concat_abort (calls : List AuthorityCall) :
    after (calls ++ [.abort]) = (after calls).abort.2 :=
  authorityMachine.run_concat new calls _

theorem after_concat_commit (calls : List AuthorityCall) (body : BodyState)
    (currentLease : Option SafetyLease) (request : CommitRequest) :
    after (calls ++ [.commit body currentLease request]) =
      ((after calls).commit body currentLease request).2 :=
  authorityMachine.run_concat new calls _

theorem begin_eq_ok {transaction : AuthorityTransaction} {activeLease : Option SafetyLease} :
    (transaction.begin activeLease).1 = .ok () ↔ transaction.pending = false := by
  cases hpending : transaction.pending with
  | false => simp [begin_of_idle hpending]
  | true => simp [begin_of_pending hpending]

theorem begin_error_unchanged {transaction : AuthorityTransaction}
    {activeLease : Option SafetyLease} {error : BeginError}
    (h : (transaction.begin activeLease).1 = .error error) :
    (transaction.begin activeLease).2 = transaction := by
  cases hpending : transaction.pending with
  | false => simp [begin_of_idle hpending] at h
  | true => rw [begin_of_pending hpending]

/-- The latest call that changed the transaction is a successful BEGIN, which
captured this lease. -/
def Captured (calls : List AuthorityCall) (captured : Option SafetyLease) : Prop :=
  ∃ earlier later, calls = earlier ++ .begin captured :: later ∧
    ((after earlier).begin captured).1 = .ok () ∧ ∀ call ∈ later, call.IsBegin

theorem Captured.concat_begin {calls : List AuthorityCall} {captured : Option SafetyLease}
    (h : Captured calls captured) (activeLease : Option SafetyLease) :
    Captured (calls ++ [.begin activeLease]) captured := by
  obtain ⟨earlier, later, rfl, hsuccess, hlater⟩ := h
  refine ⟨earlier, later ++ [.begin activeLease], by simp, hsuccess, ?_⟩
  intro call hcall
  rcases List.mem_append.mp hcall with hcall | hcall
  · exact hlater call hcall
  · exact ⟨activeLease, List.mem_singleton.mp hcall⟩

/-- Only a BEGIN can end a history with something captured. -/
theorem Captured.last_isBegin {calls : List AuthorityCall} {last : AuthorityCall}
    {captured : Option SafetyLease} (h : Captured (calls ++ [last]) captured) :
    last.IsBegin ∧ (Captured calls captured ∨
      last = .begin captured ∧ ((after calls).begin captured).1 = .ok ()) := by
  obtain ⟨earlier, later, hcalls, hsuccess, hlater⟩ := h
  cases later using List.reverseRecOn with
  | nil =>
      obtain ⟨rfl, hlast⟩ := List.append_inj' hcalls rfl
      rw [List.cons.injEq] at hlast
      exact ⟨⟨captured, hlast.1⟩, .inr ⟨hlast.1, hsuccess⟩⟩
  | append_singleton later final =>
      rw [← List.cons_append, ← List.append_assoc] at hcalls
      obtain ⟨hfront, hlast⟩ := List.append_inj' hcalls rfl
      rw [List.cons.injEq] at hlast
      refine ⟨hlast.1 ▸ hlater final (by simp), .inl ⟨earlier, later, hfront, hsuccess, ?_⟩⟩
      exact fun call hcall => hlater call (List.mem_append_left _ hcall)

/-- The state is a faithful summary of the history. -/
theorem after_pending_iff (calls : List AuthorityCall) (captured : Option SafetyLease) :
    (after calls).pending = true ∧ (after calls).capturedLease = captured ↔
      Captured calls captured := by
  induction calls using List.reverseRecOn generalizing captured with
  | nil =>
      constructor
      · rintro ⟨hpending, _⟩
        cases hpending
      · rintro ⟨earlier, later, hcalls, _⟩
        simp at hcalls
  | append_singleton calls call ih =>
      cases call with
      | begin activeLease =>
          rw [after_concat_begin]
          cases hpending : (after calls).pending with
          | true =>
              -- the second BEGIN is refused and keeps the capture
              rw [begin_of_pending hpending, ih]
              constructor
              · exact fun h => h.concat_begin activeLease
              · intro h
                rcases h.last_isBegin.2 with hcaptured | ⟨_, hsuccess⟩
                · exact hcaptured
                · rw [begin_eq_ok, hpending] at hsuccess
                  cases hsuccess
          | false =>
              -- the capture is that of the last call
              rw [begin_of_idle hpending]
              constructor
              · rintro ⟨_, rfl⟩
                exact ⟨calls, [], rfl, begin_eq_ok.mpr hpending, by simp⟩
              · intro h
                rcases h.last_isBegin.2 with hcaptured | ⟨hbegin, _⟩
                · rw [← ih captured, hpending] at hcaptured
                  exact absurd hcaptured.1 (by simp)
                · cases hbegin
                  exact ⟨rfl, rfl⟩
      | abort =>
          -- what follows a capture are refused BEGINs only, so no capture ends with another call
          rw [after_concat_abort]
          constructor
          · rintro ⟨hpending, _⟩
            cases hpending
          · intro h
            obtain ⟨activeLease, hbegin⟩ := h.last_isBegin.1
            cases hbegin
      | commit body currentLease request =>
          rw [after_concat_commit]
          constructor
          · rintro ⟨hpending, _⟩
            rw [commit_pending] at hpending
            cases hpending
          · intro h
            obtain ⟨activeLease, hbegin⟩ := h.last_isBegin.1
            cases hbegin

/-- A history that starts idle and ends with a capture contains a successful
BEGIN after its start. -/
theorem exists_begin_of_captured {earlier middle : List AuthorityCall}
    (hidle : (after earlier).pending = false)
    (hpending : (after (earlier ++ middle)).pending = true) :
    ∃ before activeLease rest, middle = before ++ .begin activeLease :: rest ∧
      ((after (earlier ++ before)).begin activeLease).1 = .ok () := by
  induction middle using List.reverseRecOn with
  | nil =>
      rw [List.append_nil, hidle] at hpending
      cases hpending
  | append_singleton middle call ih =>
      cases hmiddle : (after (earlier ++ middle)).pending with
      | true =>
          obtain ⟨before, activeLease, rest, rfl, hsuccess⟩ := ih hmiddle
          exact ⟨before, activeLease, rest ++ [call], by simp, hsuccess⟩
      | false =>
          rw [← List.append_assoc] at hpending
          obtain ⟨activeLease, rfl⟩ : call.IsBegin :=
            ((after_pending_iff _ _).mp ⟨hpending, rfl⟩).last_isBegin.1
          exact ⟨middle, activeLease, [], rfl, begin_eq_ok.mpr hmiddle⟩

/-- Characterization of the allowed commits of an arbitrary history, and what
follows from it: allowed commits are separated by successful begins, a rejected
begin changes nothing, and an allowed commit would also pass the decision ladder
on the lease that is active at commit. -/
theorem commit_allowed_iff_history :
    (∀ (calls : List AuthorityCall) (body : BodyState) (currentLease : Option SafetyLease)
        (request : CommitRequest),
      ((after calls).commit body currentLease request).1 = .allow ↔
        ∃ earlier lease later, calls = earlier ++ .begin (some lease) :: later ∧
          ((after earlier).begin (some lease)).1 = .ok () ∧
          (∀ call ∈ later, call.IsBegin) ∧
          currentLease = some lease ∧
          body.quarantined = false ∧ body.bodyUid = lease.bodyUid ∧ body.epoch = lease.epoch ∧
          body.generation = lease.generation ∧ body.certificate = lease.certificate ∧
          request.nowNs < lease.validUntilNs ∧ request.principalId = lease.principalId ∧
          request.resourceId = lease.resourceId ∧ request.actionId = lease.actionId) ∧
    (∀ (earlier middle : List AuthorityCall) (body₁ body₂ : BodyState)
        (lease₁ lease₂ : Option SafetyLease) (request₁ request₂ : CommitRequest),
      ((after earlier).commit body₁ lease₁ request₁).1 = .allow →
      ((after (earlier ++ .commit body₁ lease₁ request₁ :: middle)).commit
        body₂ lease₂ request₂).1 = .allow →
      ∃ before activeLease rest, middle = before ++ .begin activeLease :: rest ∧
        ((after (earlier ++ .commit body₁ lease₁ request₁ :: before)).begin
          activeLease).1 = .ok ()) ∧
    (∀ (calls : List AuthorityCall) (activeLease : Option SafetyLease) (error : BeginError),
      ((after calls).begin activeLease).1 = .error error →
        after (calls ++ [.begin activeLease]) = after calls) ∧
    (∀ (calls : List AuthorityCall) (body : BodyState) (currentLease : Option SafetyLease)
        (request : CommitRequest),
      ((after calls).commit body currentLease request).1 = .allow →
        validateCommit body currentLease request = .allow) := by
  refine ⟨?_, ?_, ?_, ?_⟩
  · intro calls body currentLease request
    rw [commit_eq_allow]
    constructor
    · rintro ⟨hpending, lease, hcaptured, hcurrent, hauthorizes⟩
      obtain ⟨earlier, later, hcalls, hsuccess, hlater⟩ :=
        (after_pending_iff calls (some lease)).mp ⟨hpending, hcaptured⟩
      exact ⟨earlier, lease, later, hcalls, hsuccess, hlater, hcurrent,
        hauthorizes.notQuarantined, hauthorizes.bodyUid, hauthorizes.epoch,
        hauthorizes.generation, hauthorizes.certificate, hauthorizes.unexpired,
        hauthorizes.principalId, hauthorizes.resourceId, hauthorizes.actionId⟩
    · rintro ⟨earlier, lease, later, hcalls, hsuccess, hlater, hcurrent, hquarantined, huid,
        hepoch, hgeneration, hcertificate, hunexpired, hprincipal, hresource, haction⟩
      obtain ⟨hpending, hcaptured⟩ :=
        (after_pending_iff calls (some lease)).mpr ⟨earlier, later, hcalls, hsuccess, hlater⟩
      exact ⟨hpending, lease, hcaptured, hcurrent, hquarantined, huid, hepoch, hgeneration,
        hcertificate, hunexpired, hprincipal, hresource, haction⟩
  · intro earlier middle body₁ body₂ lease₁ lease₂ request₁ request₂ _ hsecond
    have hidle : (after (earlier ++ [.commit body₁ lease₁ request₁])).pending = false := by
      rw [after_concat_commit, commit_pending]
    have hpending := (commit_eq_allow.mp hsecond).1
    rw [List.append_cons] at hpending
    obtain ⟨before, activeLease, rest, hmiddle, hsuccess⟩ :=
      exists_begin_of_captured hidle hpending
    rw [← List.append_cons] at hsuccess
    exact ⟨before, activeLease, rest, hmiddle, hsuccess⟩
  · intro calls activeLease error herror
    rw [after_concat_begin, begin_error_unchanged herror]
  · intro calls body currentLease request hallow
    obtain ⟨_, lease, _, hcurrent, hauthorizes⟩ := commit_eq_allow.mp hallow
    exact validateCommit_eq_allow.mpr ⟨lease, hcurrent, hauthorizes⟩

end AuthorityTransaction

end Oasi
