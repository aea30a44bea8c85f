import Oasi.Foundation.Triples
import Oasi.Release.Shelf

/-! # What a builder may count on

Who holds the draft is the only one to write and to move it, so that nothing appears at the
output between its last look and its move. For each kind of action: what a builder has to
know before it acts, and what it knows when the action returns.
-/

namespace Oasi

namespace Release

open Builder Interference

/-! ## What the others leave alone -/

/-- The process has created the draft, and has left this in it. -/
def Holding (process : ProcessId) (file : File) (shelf : Shelf) : Prop :=
  shelf.holder = some process ∧ shelf.draft = some file

section Assertions

variable {process : ProcessId} {before after : Shelf}

/-- What a process holds is left to it by the others. -/
theorem Holding.leaves {file : File} (h : Holding process file before)
    (hleaves : LeavesShelf process before after) : Holding process file after := by
  obtain ⟨hholder, hdraft, _⟩ := hleaves.held h.1
  exact ⟨hholder, hdraft.trans h.2⟩

/-- A move stays in the past, and stays settled. -/
theorem Moved.grows {content : Bytes} {settled : Prop}
    (h : Moved process content settled before) (hgrows : Grows before after) :
    Moved process content settled after := by
  obtain ⟨later, publication, earlier, hpublications, hprocess, hcontent, hsettled⟩ := h
  obtain ⟨latest, hlatest, hunsynced⟩ := hgrows
  refine ⟨latest ++ later, publication, earlier, ?_, hprocess, hcontent, fun hfact => ?_⟩
  · rw [hlatest, hpublications, List.append_assoc]
  · have hbound := hsettled hfact
    rw [List.length_append]
    omega

/-- A report stays true when more is moved. -/
theorem Told.grows {nt : Bool} {report : Report} (h : Told nt before process report)
    (hgrows : Grows before after) : Told nt after process report := by
  obtain ⟨hpassed, content, hsha256, hmoved⟩ := h
  exact ⟨hpassed, content, hsha256, hmoved.grows hgrows⟩

end Assertions

section Rules

variable {unicode : UnicodeData} {zlib : Zlib} {nt : Bool} {arguments : ProcessId → Arguments}
  {initial : Option File} {process : ProcessId}

/-- No other builder touches a draft that is held. -/
theorem stable_holding (file : File) :
    (publishing unicode zlib nt arguments initial).Stable process (Holding process file) :=
  fun _ _ hlater hbefore => hbefore.leaves hlater.rely

/-- No other builder undoes a move. -/
theorem stable_moved (content : Bytes) (settled : Prop) :
    (publishing unicode zlib nt arguments initial).Stable process
      (Moved process content settled) :=
  fun _ _ hlater hbefore => hbefore.grows hlater.rely.grows

/-- What holds of every shelf needs no care. -/
theorem stable_true :
    (publishing unicode zlib nt arguments initial).Stable process fun _ => True :=
  fun _ _ _ _ => trivial

/-! ## Actions that leave the shelf alone -/

/-- Neither file is touched. -/
def Builder.Action.aside : Action → Bool
  | .createDraft | .scribble | .fill _ | .syncDraft | .replace | .syncOutput | .syncParent
  | .print _ => false
  | _ => true

/-- An action that only looks leaves the shelf as it is. -/
theorem BuildActs.aside {action : Action} {reply : Reply action} {before after : Shelf}
    (haction : action.aside = true) (h : BuildActs unicode zlib process before action reply after) :
    after = before := by
  cases h with
  | performed hperform =>
      cases action with
      | createDraft | scribble | fill | syncDraft | replace | syncOutput | syncParent | print =>
          cases haction
      | read target | statOutput =>
          simp only [perform] at hperform
          split at hperform <;> exact (congrArg Prod.snd hperform).symm
      | _ => exact (congrArg Prod.snd hperform).symm
  | faulted hdamages =>
      cases action with
      | scribble | fill => cases haction
      | _ => exact hdamages

/-- A shelf that stays as it is keeps what builders keep together. -/
theorem keeps_aside {shelf : Shelf} (hsound : Sound unicode zlib nt arguments initial shelf) :
    (publishing unicode zlib nt arguments initial).Keeps process shelf shelf :=
  ⟨hsound, fun other _ => .refl other shelf⟩

/-- Only such actions are asked for. -/
def Aside {Value : Type} (call : BuildCall Value) : Prop :=
  call.run.Uses fun action => action.aside = true

/-- A call that only looks keeps whatever the others keep. -/
theorem leads_aside {Value : Type} {call : BuildCall Value} {pre : Shelf → Prop}
    (hstable : (publishing unicode zlib nt arguments initial).Stable process pre)
    (haside : Aside call) :
    (publishing unicode zlib nt arguments initial).Leads process pre call fun _ => pre := by
  apply leads_of_uses hstable _ haside
  intro before action reply after haction hsound hpre hacts
  rw [hacts.aside haction]
  exact ⟨keeps_aside hsound, hpre⟩

/-- What an action that leaves the shelf alone replies, is true of the shelf that it met. -/
theorem leads_ask {action : Action} (haction : action.aside = true) {pre : Shelf → Prop}
    {fact : Result action → Prop}
    (hstable : (publishing unicode zlib nt arguments initial).Stable process pre)
    (h : ∀ shelf surroundings value, pre shelf →
      (perform unicode zlib surroundings process action shelf).1 = .ok value → fact value) :
    (publishing unicode zlib nt arguments initial).Leads process pre (ask action)
      fun value shelf => fact value ∧ pre shelf := by
  apply leads_execute hstable fun _ => hstable.fact
  intro before reply after hsound hpre hacts
  rw [hacts.aside haction]
  refine ⟨keeps_aside hsound, fun value hvalue => ⟨?_, hpre⟩⟩
  cases hacts with
  | performed hperform =>
      exact h before _ value hpre ((congrArg Prod.fst hperform).trans hvalue)
  | faulted => cases hvalue

/-- Two calls that only look, one after the other, only look. -/
theorem aside_bind {First Second : Type} {call : BuildCall First}
    {rest : First → BuildCall Second} (hcall : Aside call) (hrest : ∀ value, Aside (rest value)) :
    Aside (call >>= rest) :=
  Call.uses_bind hcall hrest

/-- An action that only looks is a call that only looks. -/
theorem aside_ask {action : Action} (h : action.aside = true) : Aside (ask action) :=
  Call.uses_execute h

/-- A value looks at nothing. -/
theorem aside_pure {Value : Type} (value : Value) : Aside (pure value) := trivial

/-- An outcome looks at nothing. -/
theorem aside_orRaise {Value : Type} (outcome : Except Raised Value) :
    Aside (orRaise outcome) := by
  cases outcome <;> exact trivial

/-- A check looks at nothing. -/
theorem aside_check (condition : Prop) [Decidable condition] (raised : Raised) :
    Aside (check condition raised) :=
  aside_orRaise _

/-- A check of a directory only looks. -/
theorem aside_ensureDirectory (place : Place) (label : String) :
    Aside (ensureDirectory place label) :=
  aside_bind (aside_ask rfl) fun _ => aside_orRaise _

/-- A check of a file only looks. -/
theorem aside_ensureFile (place : Place) (label : String) : Aside (ensureFile place label) :=
  aside_bind (aside_ask rfl) fun _ => aside_bind (aside_orRaise _) fun _ => aside_pure _

/-- The first checks only look. -/
theorem aside_prepare (output : Path) (given : Arguments) :
    Aside (prepare unicode output given nt) := by
  unfold prepare
  apply aside_bind (aside_ensureDirectory _ _)
  intro _
  apply aside_bind (aside_ensureFile _ _)
  intro _
  apply aside_bind (aside_ensureDirectory _ _)
  intro _
  apply aside_bind (aside_check _ _)
  intro _
  apply aside_bind (aside_check _ _)
  intro _
  apply aside_bind (aside_check _ _)
  intro _
  apply aside_bind (aside_ask rfl)
  intro drafted
  apply aside_bind (aside_check _ _)
  intro _
  apply aside_bind (aside_ask rfl)
  intro present
  cases present with
  | true => exact aside_bind (aside_check _ _) fun _ => aside_ensureFile _ _
  | false => exact aside_pure _

/-- What is returned was there, and the rest goes on from it. -/
theorem leads_orRaise {Value : Type} {outcome : Except Raised Value} {pre : Shelf → Prop}
    (hstable : (publishing unicode zlib nt arguments initial).Stable process pre) :
    (publishing unicode zlib nt arguments initial).Leads process pre (orRaise outcome)
      fun value shelf => outcome = .ok value ∧ pre shelf := by
  cases outcome with
  | error raised => exact leads_throw
  | ok value => exact leads_pure hstable fun _ hpre => ⟨rfl, hpre⟩

/-- Behind a check its condition has failed. -/
theorem leads_check {condition : Prop} [Decidable condition] {raised : Raised}
    {pre : Shelf → Prop}
    (hstable : (publishing unicode zlib nt arguments initial).Stable process pre) :
    (publishing unicode zlib nt arguments initial).Leads process pre (check condition raised)
      fun _ shelf => ¬condition ∧ pre shelf := by
  apply (leads_orRaise hstable).weaken fun _ => id
  intro _ _ h
  exact ⟨failIf_eq_ok.mp h.1, h.2⟩

/-! ## The draft -/

/-- Others hold no draft while this process does. -/
theorem Holding.others {file : File} {before after : Shelf} (h : Holding process file before)
    (hgrows : Grows before after) {other : ProcessId} (hother : other ≠ process) :
    LeavesShelf other before after := by
  refine ⟨fun hholder => ?_, hgrows⟩
  rw [h.1] at hholder
  exact absurd (Option.some.inj hholder).symm hother

/-- The draft may change as long as a holder has one. -/
theorem Sound.draft {before : Shelf} (hsound : Sound unicode zlib nt arguments initial before)
    {holder : Option ProcessId} {draft : Option File}
    (hheld : ∀ process, holder = some process → draft.isSome = true) :
    Sound unicode zlib nt arguments initial
      { before with holder := holder, draft := draft } :=
  ⟨hheld, hsound.chained, hsound.vetted, hsound.spared, hsound.told⟩

/-- Who creates the draft holds it, empty. -/
theorem leads_createDraft :
    (publishing unicode zlib nt arguments initial).Leads process (fun _ => True)
      (ask .createDraft) fun _ => Holding process ⟨[], false⟩ := by
  apply leads_execute stable_true fun _ => stable_holding _
  intro before reply after hsound _ hacts
  cases hacts with
  | faulted hdamages =>
      cases hdamages
      exact ⟨keeps_aside hsound, fun _ hvalue => by cases hvalue⟩
  | performed hperform =>
      rw [perform] at hperform
      split at hperform
      next =>
        cases hperform
        exact ⟨keeps_aside hsound, fun _ hvalue => by cases hvalue⟩
      next hvacant =>
        cases hperform
        refine ⟨⟨hsound.draft fun _ _ => rfl, fun other _ => ⟨fun hholder => ?_, ?_⟩⟩,
          fun _ _ => ⟨rfl, rfl⟩⟩
        · have hdraft := hsound.held other hholder
          rw [hvacant] at hdraft
          cases hdraft
        · exact .of_eq rfl (Nat.le_refl _)

/-- Whoever holds the draft may put something else in it. -/
theorem keeps_draft {file other : File} {before : Shelf}
    (hsound : Sound unicode zlib nt arguments initial before)
    (hholding : Holding process file before) :
    (publishing unicode zlib nt arguments initial).Keeps process before
        { before with draft := some other } ∧
      Holding process other { before with draft := some other } := by
  have hgrows : Grows before { before with draft := some other } := .of_eq rfl (Nat.le_refl _)
  exact ⟨⟨hsound.draft fun _ _ => rfl, fun _ => hholding.others hgrows⟩, hholding.1, rfl⟩

/-- A holder writes its own draft. -/
theorem Holding.write {file : File} {shelf : Shelf} (h : Holding process file shelf)
    (content : Bytes) : shelf.write content = { shelf with draft := some ⟨content, false⟩ } := by
  rw [Shelf.write, h.2]
  rfl

/-- Half an archive is held like any draft. -/
theorem leads_scribble {file : File} :
    (publishing unicode zlib nt arguments initial).Leads process (Holding process file)
      (ask .scribble) fun _ shelf => ∃ content, Holding process ⟨content, false⟩ shelf := by
  apply leads_execute (stable_holding _) fun _ => Stable.some fun _ => stable_holding _
  intro before reply after hsound hholding hacts
  cases hacts with
  | performed hperform =>
      cases hperform
      rw [hholding.write]
      obtain ⟨hkeeps, hafter⟩ := keeps_draft hsound hholding
      exact ⟨hkeeps, fun _ _ => ⟨_, hafter⟩⟩
  | faulted hdamages =>
      obtain ⟨content, rfl⟩ := hdamages
      rw [hholding.write]
      exact ⟨(keeps_draft hsound hholding).1, fun _ hvalue => by cases hvalue⟩

/-- Behind the last write the whole archive is held. -/
theorem leads_fill {file : File} {archive : Bytes} :
    (publishing unicode zlib nt arguments initial).Leads process (Holding process file)
      (ask (.fill archive)) fun _ => Holding process ⟨archive, false⟩ := by
  apply leads_execute (stable_holding _) fun _ => stable_holding _
  intro before reply after hsound hholding hacts
  cases hacts with
  | performed hperform =>
      cases hperform
      rw [hholding.write]
      obtain ⟨hkeeps, hafter⟩ := keeps_draft hsound hholding
      exact ⟨hkeeps, fun _ _ => hafter⟩
  | faulted hdamages =>
      obtain ⟨content, rfl⟩ := hdamages
      rw [hholding.write]
      exact ⟨(keeps_draft hsound hholding).1, fun _ hvalue => by cases hvalue⟩

/-- Behind the sync the archive is held, synced. -/
theorem leads_syncDraft {archive : Bytes} :
    (publishing unicode zlib nt arguments initial).Leads process
      (Holding process ⟨archive, false⟩) (ask .syncDraft)
      fun _ => Holding process ⟨archive, true⟩ := by
  apply leads_execute (stable_holding _) fun _ => stable_holding _
  intro before reply after hsound hholding hacts
  cases hacts with
  | performed hperform =>
      rw [perform, hholding.2] at hperform
      cases hperform
      obtain ⟨hkeeps, hafter⟩ := keeps_draft hsound hholding
      exact ⟨hkeeps, fun _ _ => hafter⟩
  | faulted hdamages =>
      cases hdamages
      exact ⟨keeps_aside hsound, fun _ hvalue => by cases hvalue⟩

/-! ## The verifier -/

/-- A verifier returns normally when its process passes, which tells something about the
archive that it was given. -/
theorem leads_invoke {target : Target} {pre : Shelf → Prop} {fact : Prop}
    (hstable : (publishing unicode zlib nt arguments initial).Stable process pre)
    (h : ∀ shelf allowlist source expected readable, pre shelf →
      Verifier.Passes unicode zlib [shelf.seen target readable] allowlist (some source) expected →
        fact) :
    (publishing unicode zlib nt arguments initial).Leads process pre
      (invokeIndependentVerifier target)
      fun report shelf => report.passed = true ∧ fact ∧ pre shelf := by
  unfold invokeIndependentVerifier
  apply leads_bind (leads_aside hstable (aside_ensureFile _ _))
  intro _
  have hverify := @leads_ask unicode zlib nt arguments initial process (.verify target) rfl pre
    (fun completed => completed.returncode = 0 → fact) hstable ?_
  · apply leads_bind hverify
    intro completed
    apply leads_fact
    intro hfact
    apply leads_bind (leads_check hstable)
    intro _
    apply leads_fact
    intro hcode
    cases completed.result with
    | none => exact leads_throw
    | some report =>
        apply leads_bind (leads_check hstable)
        intro _
        apply leads_fact
        intro hpassed
        exact leads_pure hstable fun _ hpre =>
          ⟨Bool.not_eq_false _ ▸ hpassed, hfact (not_not.mp hcode), hpre⟩
  · intro shelf surroundings completed hpre hreply hcode
    cases hreply
    obtain ⟨expected, hpasses⟩ := Verifier.returncode_eq_zero.mp hcode
    exact h shelf _ _ expected _ hpre hpasses

/-- The archive of a run that passes could be read. -/
theorem passes_seen {shelf : Shelf} {target : Target} {readable : Bool} {allowlist : PathState}
    {source : Option SourceDirectory} {expected : Mapping} {file : File}
    (hplace : shelf.place target = some file)
    (h : Verifier.Passes unicode zlib [shelf.seen target readable] allowlist source expected) :
    Verifier.Passes unicode zlib [.regular (some file.content)] allowlist source expected := by
  have hverified := h.verified _ (List.mem_singleton_self _)
  cases readable with
  | true => simpa [Shelf.seen, hplace] using h
  | false =>
      rw [Shelf.seen, hplace] at hverified
      cases hverified

/-- A draft that was verified is still held, and has passed a verifier. -/
theorem leads_invokeDraft {archive : Bytes} :
    (publishing unicode zlib nt arguments initial).Leads process
      (Holding process ⟨archive, true⟩) (invokeIndependentVerifier .draft)
      fun _ shelf => (∃ allowlist expected source,
        Verifier.Passes unicode zlib [.regular (some archive)] allowlist (some source) expected) ∧
          Holding process ⟨archive, true⟩ shelf := by
  apply (leads_invoke (stable_holding _) _).weaken (fun _ => id) fun _ _ h => h.2
  intro shelf allowlist source expected readable hholding hpasses
  have hplace : shelf.place .draft = some ⟨archive, true⟩ := hholding.2
  exact ⟨allowlist, expected, source, passes_seen hplace hpasses⟩

/-- Behind the second checks there is an allowlist that parses. -/
theorem leads_inspect :
    (publishing unicode zlib nt arguments initial).Leads process (fun _ => True)
      (inspect unicode) fun expected _ =>
        (∃ allowlist, parseAllowlist unicode allowlist = .ok expected) ∧ True := by
  unfold inspect
  apply leads_bind (leads_aside stable_true (aside_ask rfl))
  intro allowlist
  apply leads_bind (leads_orRaise stable_true)
  intro expected
  apply leads_fact
  intro hparsed
  apply leads_bind (leads_aside stable_true (aside_ask rfl))
  intro source
  apply leads_bind (leads_aside stable_true (aside_orRaise _))
  intro _
  exact leads_pure stable_true fun _ _ => ⟨⟨allowlist, mapError_eq_ok.mp hparsed⟩, trivial⟩

/-- The draft that is left holds what was built, and is synced. -/
theorem leads_writeDraft {expected : Mapping} :
    (publishing unicode zlib nt arguments initial).Leads process (fun _ => True)
      (writeDraft unicode zlib expected) fun _ shelf => ∃ archive,
        (∃ source, writePartial unicode zlib source expected = .ok archive) ∧
          Holding process ⟨archive, true⟩ shelf := by
  unfold writeDraft
  apply leads_bind leads_createDraft
  intro _
  apply leads_bind leads_scribble
  intro _
  apply leads_some
  intro scribbled
  apply leads_bind (leads_aside (stable_holding _) (aside_ask rfl))
  intro source
  apply leads_bind (leads_orRaise (stable_holding _))
  intro archive
  apply leads_fact
  intro hbuilt
  apply leads_bind leads_fill
  intro _
  apply leads_syncDraft.weaken fun _ => id
  intro _ shelf hholding
  exact ⟨archive, ⟨source, mapError_eq_ok.mp hbuilt⟩, hholding⟩

/-! ## The move -/

/-- The output is vacant, and only this process can change that. -/
def Free (process : ProcessId) (file : File) (vacant : Prop) (shelf : Shelf) : Prop :=
  Holding process file shelf ∧ (vacant → shelf.output = none)

/-- No other builder moves anything while a draft is held. -/
theorem stable_free (file : File) (vacant : Prop) :
    (publishing unicode zlib nt arguments initial).Stable process (Free process file vacant) := by
  intro before after hlater ⟨hholding, hvacant⟩
  refine ⟨hholding.leaves hlater.rely, fun hfact => ?_⟩
  exact (hlater.rely.held hholding.1).2.2.trans (hvacant hfact)

/-- Behind the last check the output is vacant, or may be overwritten. -/
theorem leads_refuseAppeared {file : File} :
    (publishing unicode zlib nt arguments initial).Leads process (Holding process file)
      (refuseAppeared (arguments process))
      fun _ => Free process file ((arguments process).overwrite = false) := by
  unfold refuseAppeared
  split
  next hoverwrite =>
    refine leads_pure (stable_holding _) fun shelf hholding => ⟨hholding, fun hfact => ?_⟩
    rw [hoverwrite] at hfact
    cases hfact
  next =>
    have hlook : (publishing unicode zlib nt arguments initial).Leads process
        (Holding process file) (ask (.lexists .output))
        fun present => Free process file (present = false) := by
      apply leads_execute (stable_holding _) fun _ => stable_free _ _
      intro before reply after hsound hholding hacts
      rw [hacts.aside rfl]
      refine ⟨keeps_aside hsound, fun present hpresent => ⟨hholding, fun habsent => ?_⟩⟩
      cases hacts with
      | faulted => cases hpresent
      | performed hperform =>
          cases (congrArg Prod.fst hperform).trans hpresent
          exact Option.not_isSome_iff_eq_none.mp (Bool.eq_false_iff.mp habsent)
    apply leads_bind hlook
    intro present
    apply (leads_check (stable_free _ _)).weaken fun _ => id
    intro _ shelf ⟨hpresent, hfree⟩
    exact ⟨hfree.1, fun _ => hfree.2 (Bool.eq_false_iff.mpr hpresent)⟩

/-- A vetted draft may be moved to where nothing is, or to where overwriting is allowed. -/
theorem leads_replace {archive : Bytes} (hvetted : Vetted unicode zlib archive) :
    (publishing unicode zlib nt arguments initial).Leads process
      (Free process ⟨archive, true⟩ ((arguments process).overwrite = false)) (ask .replace)
      fun _ => Moved process archive False := by
  apply leads_execute (stable_free _ _) fun _ => stable_moved _ _
  intro before reply after hsound hfree hacts
  obtain ⟨⟨hholder, hdraft⟩, hvacant⟩ := hfree
  cases hacts with
  | faulted hdamages =>
      cases hdamages
      exact ⟨keeps_aside hsound, fun _ hvalue => by cases hvalue⟩
  | performed hperform =>
      rw [perform, hdraft] at hperform
      cases hperform
      have hgrows : Grows before
          { before with
            output := some ⟨archive, true⟩
            draft := none
            unsynced := before.unsynced + 1
            holder := none
            publications := ⟨process, ⟨archive, true⟩, before.output⟩ :: before.publications } :=
        ⟨[_], rfl, Nat.le_refl _⟩
      refine ⟨⟨?_, fun _ hother => Holding.others ⟨hholder, hdraft⟩ hgrows hother⟩,
        fun _ _ => ⟨[], _, _, rfl, rfl, rfl, False.elim⟩⟩
      constructor
      · exact fun _ hnobody => by cases hnobody
      · exact .publish hsound.chained
      · exact List.forall_mem_cons.mpr ⟨⟨rfl, hvetted⟩, hsound.vetted⟩
      · exact List.forall_mem_cons.mpr ⟨hvacant, hsound.spared⟩
      · exact fun telling htelling => (hsound.told telling htelling).grows hgrows

/-! ## After the move -/

/-- What was moved is synced already. -/
theorem sync_output {content : Bytes} {settled : Prop} {before : Shelf} {file : File}
    (hsound : Sound unicode zlib nt arguments initial before)
    (hmoved : Moved process content settled before) (houtput : before.output = some file) :
    { before with output := some file.sync } = before := by
  obtain ⟨later, publication, earlier, hpublications, _⟩ := hmoved
  have hchained := hsound.chained
  rw [houtput] at hchained
  cases hlog : before.publications with
  | nil => simp [hlog] at hpublications
  | cons latest older =>
      rw [hlog] at hchained
      cases hchained with
      | publish hearlier =>
          have hsynced := (hsound.vetted latest (hlog ▸ List.mem_cons_self)).1
          have hsame : latest.file.sync = latest.file := by
            rw [File.sync, ← hsynced]
          rw [hsame, ← houtput, ← hlog]

/-- The sync of the output leaves the move in the past. -/
theorem leads_syncOutput {content : Bytes} {settled : Prop} :
    (publishing unicode zlib nt arguments initial).Leads process (Moved process content settled)
      (ask .syncOutput) fun _ => Moved process content settled := by
  apply leads_execute (stable_moved _ _) fun _ => stable_moved _ _
  intro before reply after hsound hmoved hacts
  have hsame : after = before := by
    cases hacts with
    | faulted hdamages => exact hdamages
    | performed hperform =>
        rw [perform] at hperform
        split at hperform
        next =>
          cases hperform
          rfl
        next file houtput =>
          cases hperform
          exact sync_output hsound hmoved houtput
  rw [hsame]
  exact ⟨keeps_aside hsound, fun _ _ => hmoved⟩

/-- Where directories are synced, the move is settled behind it. -/
theorem leads_syncParent {content : Bytes} :
    (publishing unicode zlib nt arguments initial).Leads process (Moved process content False)
      (fsyncParentWhenSupported nt) fun _ => Moved process content (nt = false) := by
  unfold fsyncParentWhenSupported
  split
  next hnt =>
    refine leads_pure (stable_moved _ _) fun shelf hmoved => ?_
    obtain ⟨later, publication, earlier, hpublications, hprocess, hcontent, _⟩ := hmoved
    refine ⟨later, publication, earlier, hpublications, hprocess, hcontent, fun hfact => ?_⟩
    rw [hnt] at hfact
    cases hfact
  next =>
    apply leads_execute (stable_moved _ _) fun _ => stable_moved _ _
    intro before reply after hsound hmoved hacts
    cases hacts with
    | faulted hdamages =>
        cases hdamages
        exact ⟨keeps_aside hsound, fun _ hvalue => by cases hvalue⟩
    | performed hperform =>
        cases hperform
        have hgrows : Grows before { before with unsynced := 0 } :=
          .of_eq rfl (Nat.zero_le _)
        refine ⟨⟨⟨hsound.held, hsound.chained, hsound.vetted, hsound.spared, ?_⟩, ?_⟩, ?_⟩
        · exact fun telling htelling => (hsound.told telling htelling).grows hgrows
        · exact fun _ _ => ⟨fun hholder => ⟨hholder, rfl, rfl⟩, hgrows⟩
        · intro _ _
          obtain ⟨later, publication, earlier, hpublications, hprocess, hcontent, _⟩ := hmoved
          exact ⟨later, publication, earlier, hpublications, hprocess, hcontent,
            fun _ => Nat.zero_le _⟩

/-- What is printed is true. -/
theorem leads_print {content : Bytes} {report : Report}
    (hsha256 : report.sha256 = hexdigest content) (hpassed : report.verification.passed = true) :
    (publishing unicode zlib nt arguments initial).Leads process
      (Moved process content (nt = false)) (ask (.print report)) fun _ _ => True := by
  apply leads_execute (stable_moved _ _) fun _ => stable_true
  intro before reply after hsound hmoved hacts
  cases hacts with
  | faulted hdamages =>
      cases hdamages
      exact ⟨keeps_aside hsound, fun _ _ => trivial⟩
  | performed hperform =>
      cases hperform
      refine ⟨⟨⟨hsound.held, hsound.chained, hsound.vetted, hsound.spared, ?_⟩, ?_⟩,
        fun _ _ => trivial⟩
      · exact List.forall_mem_cons.mpr ⟨⟨hpassed, content, hsha256, hmoved⟩, hsound.told⟩
      · exact fun _ _ => ⟨fun hholder => ⟨hholder, rfl, rfl⟩, .of_eq rfl (Nat.le_refl _)⟩

/-! ## The program -/

/-- A held draft is read as it was written. -/
theorem leads_readDraft {archive : Bytes} :
    (publishing unicode zlib nt arguments initial).Leads process
      (Holding process ⟨archive, true⟩) (ask (.read .draft))
      fun drafted shelf => drafted = archive ∧ Holding process ⟨archive, true⟩ shelf := by
  apply leads_ask rfl (stable_holding _)
  intro shelf surroundings drafted hholding hreply
  have hplace : shelf.place .draft = some ⟨archive, true⟩ := hholding.2
  rw [perform, hplace] at hreply
  exact (Except.ok.inj hreply).symm

/-- A built archive is moved when it was verified, and told of when it was moved. -/
theorem leads_publish {output : Path} {expected : Mapping} {archive : Bytes}
    (hbuilt : ∃ allowlist expected source, parseAllowlist unicode allowlist = .ok expected ∧
      writePartial unicode zlib source expected = .ok archive) :
    (publishing unicode zlib nt arguments initial).Leads process
      (Holding process ⟨archive, true⟩) (publish output (arguments process) nt expected)
      fun _ _ => True := by
  unfold publish
  apply leads_bind leads_readDraft
  intro drafted
  apply leads_fact
  rintro rfl
  apply leads_bind leads_invokeDraft
  intro _
  apply leads_fact
  intro hverified
  apply leads_bind leads_refuseAppeared
  intro _
  apply leads_bind (leads_replace ⟨hbuilt, hverified⟩)
  intro _
  apply leads_bind leads_syncOutput
  intro _
  apply leads_bind leads_syncParent
  intro _
  apply leads_bind (leads_invoke (stable_moved _ _) fun _ _ _ _ _ _ _ => trivial)
  intro verification
  apply leads_fact
  intro hpassed
  apply leads_fact
  intro _
  apply leads_bind (leads_aside (stable_moved _ _) (aside_ask rfl))
  intro published
  apply leads_bind (leads_aside (stable_moved _ _) (aside_check _ _))
  intro _
  apply leads_bind (leads_aside (stable_moved _ _) (aside_ask rfl))
  intro bytes
  apply leads_bind (leads_print rfl hpassed)
  intro _
  exact leads_pure stable_true fun _ _ => trivial

/-- Whatever a builder meets, it keeps what the builders keep together. -/
theorem leads_main {output : Path} :
    (publishing unicode zlib nt arguments initial).Leads process (fun _ => True)
      (Builder.main unicode zlib output (arguments process) nt) fun _ _ => True := by
  unfold Builder.main
  apply leads_bind (leads_aside stable_true (aside_prepare _ _))
  intro _
  apply leads_bind leads_inspect
  intro expected
  apply leads_fact
  intro ⟨allowlist, hparsed⟩
  apply leads_bind leads_writeDraft
  intro _
  apply leads_some
  intro archive
  apply leads_fact
  intro ⟨source, hbuilt⟩
  exact leads_publish ⟨allowlist, expected, source, hparsed, hbuilt⟩

end Rules

end Release

end Oasi
