import Oasi.Release.Publishing
import Oasi.Release.SettledBuild

/-! # What is published

Whatever builders are started on one output, however their actions interleave and wherever
they or the power are cut off: the output holds what it held before any of them, or a whole
archive that was verified where it was built.
-/

namespace Oasi

namespace Release

open Builder

/-- Builders that are started on one output. A process that ends leaves its draft. -/
def builds (unicode : UnicodeData) (zlib : Zlib) (nt : Bool) (output : Path)
    (arguments : ProcessId → Arguments) :
    Launching ProcessId Shelf Action Reply (Except Raised Report) where
  Performs := BuildActs unicode zlib
  Program := fun process program =>
    program = (Builder.main unicode zlib output (arguments process) nt).run
  release := fun _ shelf => shelf

def buildRules (unicode : UnicodeData) (zlib : Zlib) (nt : Bool) (output : Path)
    (arguments : ProcessId → Arguments) (initial : Option File) :
    Guarding (builds unicode zlib nt output arguments) where
  toInterference := publishing unicode zlib nt arguments initial
  performs := id
  Untouched := fun _ _ => True
  untouched_later := fun _ _ => trivial
  starts := by
    rintro process program shelf _ _ rfl
    exact (leads_main shelf trivial).imp fun _ _ _ _ => trivial
  ends := keeps_aside

variable {unicode : UnicodeData} {zlib : Zlib} {nt : Bool} {output : Path}
  {arguments : ProcessId → Arguments} {initial draft : Option File}
  {processes : Processes ProcessId Shelf Action Reply (Except Raised Report)}

theorem sound_of_builds
    (hreachable : Processes.Reachable (builds unicode zlib nt output arguments)
      (Shelf.start initial draft) processes) :
    Sound unicode zlib nt arguments initial processes.world := by
  refine @Guarding.invariant_of_reachable _ _ _ _ _ _
    (buildRules unicode zlib nt output arguments initial) _ _ _ ?_ (fun _ => trivial) hreachable
  constructor
  · exact fun _ hnobody => by cases hnobody
  · exact .start
  · exact fun _ hnone => by cases hnone
  · exact fun _ hnone => by cases hnone
  · exact fun _ hnone => by cases hnone

/-! ## The moves -/

variable {publications later : List Publication} {found : Option File}

/-- What the output has held at any time. -/
theorem Chained.mem (h : Chained initial publications found) :
    ∀ held ∈ found :: publications.map Publication.replaced,
      held = initial ∨ ∃ publication ∈ publications, held = some publication.file := by
  induction h with
  | start => simp
  | @publish publication earlier _ ih =>
      intro held hheld
      rcases List.mem_cons.mp hheld with rfl | hheld
      · exact .inr ⟨_, List.mem_cons_self, rfl⟩
      · apply (ih held hheld).imp_right
        intro ⟨other, hother, hfile⟩
        exact ⟨other, List.mem_cons_of_mem _ hother, hfile⟩

/-- What the output has held since a move. -/
theorem Chained.mem_since {publication : Publication} {earlier : List Publication}
    (h : Chained initial (later ++ publication :: earlier) found) :
    ∀ held ∈ found :: later.map Publication.replaced,
      ∃ other ∈ later ++ [publication], held = some other.file := by
  induction later generalizing found with
  | nil =>
      cases h with
      | publish _ => simp
  | cons latest later ih =>
      cases h with
      | publish hearlier =>
          intro held hheld
          rcases List.mem_cons.mp hheld with rfl | hheld
          · exact ⟨latest, List.mem_cons_self, rfl⟩
          · obtain ⟨other, hother, hfile⟩ := ih hearlier held hheld
            exact ⟨other, List.mem_cons_of_mem _ hother, hfile⟩

/-- Only the first of all moves can go to a vacant output. -/
theorem Chained.first {publication : Publication} (h : Chained initial publications found)
    (hmem : publication ∈ publications) (hvacant : publication.replaced = none) :
    initial = none ∧ ∃ later, publications = later ++ [publication] := by
  induction h with
  | start => cases hmem
  | @publish latest earlier hearlier ih =>
      rcases List.mem_cons.mp hmem with rfl | hmem
      · generalize hreplaced : publication.replaced = replaced at hearlier
        cases hearlier with
        | start => exact ⟨hreplaced.symm.trans hvacant, [], rfl⟩
        | publish _ => cases hreplaced.symm.trans hvacant
      · obtain ⟨hinitial, later, hlater⟩ := ih hmem
        exact ⟨hinitial, latest :: later, by rw [hlater, List.cons_append]⟩

/-! ## Two builders at the same time -/

/-- Builders of the two empty files; only the first process may not overwrite. -/
abbrev emptyBuilds (nt : Bool) : Launching ProcessId Shelf Action Reply (Except Raised Report) :=
  builds .ascii markedZlib nt emptyOutput fun process => emptyArguments (process ≠ 0)

def emptyReport : Report := (emptyArguments false).report emptyOutput 2 emptyFilesArchive

/-- The shelf after the first process. -/
def firstShelf (nt : Bool) : Shelf :=
  (Shelf.start none none).publish nt 0 emptyFilesArchive emptyReport

/-- The shelf after the second process, which has overwritten the output. -/
def secondShelf (nt : Bool) : Shelf := (firstShelf nt).publish nt 1 emptyFilesArchive emptyReport

/-- Alone, each of the processes publishes the archive. -/
theorem settled_emptyDirectory {overwrite nt : Bool} {process : ProcessId} {shelf : Shelf}
    (hvacant : shelf.draft = none) (houtput : shelf.output.isSome = true → overwrite = true) :
    settled .ascii markedZlib emptySurroundings process
      (Builder.main .ascii markedZlib emptyOutput (emptyArguments overwrite) nt) shelf =
        (.ok emptyReport, shelf.publish nt process emptyFilesArchive emptyReport) := by
  have hready := @ready_emptyDirectory overwrite nt shelf hvacant houtput
  have hvouches := hready.vouches inflate_markedZlib
  have hapart := @apart_emptySurroundings overwrite shelf
  exact (settled_main hapart.source).mpr ⟨hready.admissible, emptyFiles, emptyFilesArchive,
    hready.parsed, hready.checked, hready.built, (hapart.vouches_iff _).mpr hvouches,
    (hapart.vouches_iff _).mpr hvouches, rfl, rfl⟩

theorem emptyBuilds_performs {nt : Bool} {process : ProcessId} (action : Action) (before : Shelf) :
    (emptyBuilds nt).Performs process before action
      (perform .ascii markedZlib (emptySurroundings before) process action before).1
      (perform .ascii markedZlib (emptySurroundings before) process action before).2 :=
  .performed rfl

/-- A process that runs alone gets to where its call settles. -/
theorem reachable_of_settled {nt : Bool} {process : ProcessId} {call : BuildCall Report}
    {processes : Processes ProcessId Shelf Action Reply (Except Raised Report)}
    {outcome : Except Raised Report} {after : Shelf}
    (hreachable : Processes.Reachable (emptyBuilds nt) (.start none none) processes)
    (hstatus : processes.status process = .running call.run)
    (hsettled : settled .ascii markedZlib emptySurroundings process call processes.world =
      (outcome, after)) :
    ∃ done, Processes.Reachable (emptyBuilds nt) (.start none none) done ∧ done.world = after ∧
      ∀ other, other ≠ process → done.status other = processes.status other := by
  obtain ⟨done, hdone, hworld, hothers⟩ :=
    Processes.reachable_of_run emptyBuilds_performs hreachable hstatus
  rw [settled, Call.alone] at hsettled
  rw [hsettled] at hworld
  exact ⟨done, hdone, hworld, hothers⟩

/-- What follows the first checks. -/
def finish (overwrite nt : Bool) : BuildCall Report := do
  let expected ← Builder.inspect .ascii
  writeDraft .ascii markedZlib expected
  Builder.publish emptyOutput (emptyArguments overwrite) nt expected

/-- Where the first checks pass they leave nothing behind. -/
theorem settled_finish {nt : Bool} {process : ProcessId} {shelf : Shelf}
    (hvacant : shelf.draft = none) :
    settled .ascii markedZlib emptySurroundings process (finish true nt) shelf =
      (.ok emptyReport, shelf.publish nt process emptyFilesArchive emptyReport) := by
  have hmain := @settled_emptyDirectory true nt process shelf hvacant fun _ => rfl
  change settled .ascii markedZlib emptySurroundings process
    (prepare .ascii emptyOutput (emptyArguments true) nt >>= fun _ => finish true nt) shelf = _
    at hmain
  rw [settled_bind] at hmain
  obtain ⟨_, middle, hprepare, hfinish⟩ := hmain
  rw [settled_prepare] at hprepare
  rwa [← hprepare.2] at hfinish

/-- Both processes find the output vacant. The first one publishes before the second one goes
on from where it was. -/
theorem reachable_secondShelf (nt : Bool) :
    ∃ processes, Processes.Reachable (emptyBuilds nt) (.start none none) processes ∧
      processes.world = secondShelf nt := by
  let starting : Processes ProcessId Shelf Action Reply (Except Raised Report) :=
    .start (.start none none)
  let main (overwrite : Bool) :=
    Builder.main .ascii markedZlib emptyOutput (emptyArguments overwrite) nt
  let one := starting.set 0 (.running (main false).run) starting.world
  let both := one.set 1 (.running (main true).run) one.world
  have hone : Processes.Step (emptyBuilds nt) starting one := .starts rfl rfl
  have hboth : Processes.Step (emptyBuilds nt) one both := .starts rfl rfl
  have hstarted : both.status 1 = .running
      (prepare .ascii emptyOutput (emptyArguments true) nt >>= fun _ => finish true nt).run := rfl
  rw [Call.run_bind] at hstarted
  obtain ⟨looked, hlooked, hlookedWorld, hfinish, hfirst⟩ := Processes.reachable_of_bind
    emptyBuilds_performs (.tail (.single hone) hboth) hstarted
  have hprepared : settled .ascii markedZlib emptySurroundings 1
      (prepare .ascii emptyOutput (emptyArguments true) nt) both.world = (.ok (), both.world) :=
    settled_prepare.mpr ⟨admissible_emptySurroundings rfl fun _ => rfl, rfl⟩
  rw [settled, Call.alone] at hprepared
  rw [hprepared] at hlookedWorld hfinish
  have hpublishes := @settled_emptyDirectory false nt 0 looked.world
    (congrArg Shelf.draft hlookedWorld) fun h => by cases hlookedWorld ▸ h
  obtain ⟨moved, hmoved, hmovedWorld, hsecond⟩ :=
    reachable_of_settled hlooked (hfirst 0 (by decide)) hpublishes
  have hfinishes := @settled_finish nt 1 moved.world (congrArg Shelf.draft hmovedWorld)
  obtain ⟨done, hdone, hdoneWorld, _⟩ :=
    reachable_of_settled hmoved ((hsecond 1 (by decide)).trans hfinish) hfinishes
  refine ⟨done, hdone, ?_⟩
  rw [hdoneWorld, hmovedWorld, hlookedWorld]
  rfl

/-! ## Results -/

/-- The output never holds, and never comes to hold after a power cut, anything but what it
held at the beginning or an archive that was built, synced and verified. -/
theorem survivors_vetted
    (hreachable : Processes.Reachable (builds unicode zlib nt output arguments)
      (Shelf.start initial draft) processes) :
    ∀ found ∈ processes.world.survivors, found = initial ∨
      ∃ file, found = some file ∧ file.synced = true ∧ Vetted unicode zlib file.content := by
  have hsound := sound_of_builds hreachable
  intro found hfound
  have hheld : found ∈ processes.world.output ::
      processes.world.publications.map Publication.replaced := by
    rcases List.mem_cons.mp hfound with rfl | hreplaced
    · exact List.mem_cons_self
    · rw [List.map_take] at hreplaced
      exact List.mem_cons_of_mem _ (List.mem_of_mem_take hreplaced)
  apply (hsound.chained.mem found hheld).imp_right
  intro ⟨publication, hpublication, hfile⟩
  obtain ⟨hsynced, hvetted⟩ := hsound.vetted publication hpublication
  exact ⟨_, hfile, hsynced, hvetted⟩

/-- Where no directory is synced, a power cut leaves the second archive, the first one or
nothing, and both archives are vetted. -/
theorem survivors_vetted_of_two :
    ∃ processes, Processes.Reachable (emptyBuilds true) (.start none none) processes ∧
      processes.world.survivors =
        [some ⟨emptyFilesArchive, true⟩, some ⟨emptyFilesArchive, true⟩, none] ∧
      Vetted .ascii markedZlib emptyFilesArchive := by
  obtain ⟨processes, hreachable, hworld⟩ := reachable_secondShelf true
  have hsurvivors : processes.world.survivors =
      [some ⟨emptyFilesArchive, true⟩, some ⟨emptyFilesArchive, true⟩, none] := by
    rw [hworld]
    rfl
  have hfound := survivors_vetted hreachable (some ⟨emptyFilesArchive, true⟩)
    (hsurvivors ▸ List.mem_cons_self)
  rcases hfound with hinitial | ⟨file, hfile, _, hvetted⟩
  · cases hinitial
  · cases hfile
    exact ⟨processes, hreachable, hsurvivors, hvetted⟩

/-- A builder that may not overwrite publishes nothing, or the first archive of all to an
output where nothing was. -/
theorem published_first
    (hreachable : Processes.Reachable (builds unicode zlib nt output arguments)
      (Shelf.start initial draft) processes) :
    ∀ publication ∈ processes.world.publications,
      (arguments publication.process).overwrite = false →
        initial = none ∧ ∃ later, processes.world.publications = later ++ [publication] := by
  have hsound := sound_of_builds hreachable
  intro publication hpublication hkeep
  exact hsound.chained.first hpublication (hsound.spared publication hpublication hkeep)

/-- The process that may not overwrite was the first of the two. -/
theorem published_first_of_two :
    ∃ processes, Processes.Reachable (emptyBuilds false) (.start none none) processes ∧
      processes.world.publications.length = 2 ∧
      ∃ publication ∈ processes.world.publications, publication.process = 0 ∧
        ∃ later, processes.world.publications = later ++ [publication] := by
  obtain ⟨processes, hreachable, hworld⟩ := reachable_secondShelf false
  have hmem : ⟨0, ⟨emptyFilesArchive, true⟩, none⟩ ∈ processes.world.publications := by
    rw [hworld]
    exact List.mem_cons_of_mem _ (List.mem_singleton_self _)
  have hlength : processes.world.publications.length = 2 := by
    rw [hworld]
    rfl
  exact ⟨processes, hreachable, hlength, _, hmem, rfl, (published_first hreachable _ hmem rfl).2⟩

/-- A report names the digest of an archive that its builder has published, and on systems
that sync directories nothing older comes back. -/
theorem printed_published
    (hreachable : Processes.Reachable (builds unicode zlib nt output arguments)
      (Shelf.start initial draft) processes) :
    ∀ process report, (process, report) ∈ processes.world.printed →
      ∃ later publication earlier,
        processes.world.publications = later ++ publication :: earlier ∧
        publication.process = process ∧
        report.sha256 = hexdigest publication.file.content ∧
        (nt = false → ∀ found ∈ processes.world.survivors,
          ∃ other ∈ later ++ [publication], found = some other.file) := by
  have hsound := sound_of_builds hreachable
  intro process report hprinted
  obtain ⟨_, content, hsha256, later, publication, earlier, hpublications, hprocess, rfl,
    hsettled⟩ := hsound.told _ hprinted
  refine ⟨later, publication, earlier, hpublications, hprocess, hsha256, ?_⟩
  intro hnt found hfound
  have hchained := hsound.chained
  rw [hpublications] at hchained
  apply hchained.mem_since
  rw [Shelf.survivors, hpublications, List.take_append_of_le_length (hsettled hnt)] at hfound
  rcases List.mem_cons.mp hfound with rfl | hreplaced
  · exact List.mem_cons_self
  · rw [List.map_take] at hreplaced
    exact List.mem_cons_of_mem _ (List.mem_of_mem_take hreplaced)

/-- The first process has printed its report, and a power cut brings back nothing older than
its archive, although that has been overwritten. -/
theorem printed_published_of_two :
    ∃ processes, Processes.Reachable (emptyBuilds false) (.start none none) processes ∧
      (0, emptyReport) ∈ processes.world.printed ∧
      ∃ later publication earlier,
        processes.world.publications = later ++ publication :: earlier ∧
        publication.process = 0 ∧
        emptyReport.sha256 = hexdigest publication.file.content ∧
        ∀ found ∈ processes.world.survivors,
          ∃ other ∈ later ++ [publication], found = some other.file := by
  obtain ⟨processes, hreachable, hworld⟩ := reachable_secondShelf false
  have hprinted : (0, emptyReport) ∈ processes.world.printed := by
    rw [hworld]
    exact List.mem_cons_of_mem _ (List.mem_singleton_self _)
  obtain ⟨later, publication, earlier, hpublications, hprocess, hsha256, hsurvivors⟩ :=
    printed_published hreachable 0 emptyReport hprinted
  exact ⟨processes, hreachable, hprinted, later, publication, earlier, hpublications, hprocess,
    hsha256, hsurvivors rfl⟩

end Release

end Oasi
