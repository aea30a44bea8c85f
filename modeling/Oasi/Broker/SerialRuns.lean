import Oasi.Broker.Serial

/-! # Runs in which calls do not overlap

While at most one call is running at a time, and the system causes no error, the handles
of a ledger behave like its machine of phases: what their calls have returned is what the
machine answers. Handles may be closed and effects applied at any point.
-/

namespace Oasi.Broker

/-! ## The history is never read -/

/-- The same world with another history. -/
def World.recall (world : World) (history : List Happening) : World :=
  { world with history := history }

section Recall

variable {image : Database → Bytes} {handle : Handle}

/-- A statement does not look at the history. -/
theorem write_recall (world : World) (history : List Happening)
    (statement : Database → Except Raised Database) :
    (world.recall history).write handle statement =
      ((world.write handle statement).1, (world.write handle statement).2.recall history) := by
  obtain ⟨database, writer, texts, fresh, sealInode, temporaryInode, past⟩ := world
  unfold World.write World.recall
  cases writer with
  | some entry =>
      dsimp only
      split
      · cases statement entry.2 <;> rfl
      · rfl
  | none =>
      cases database with
      | none => rfl
      | some database =>
          dsimp only
          cases statement database <;> rfl

/-- Creating a table does not look at the history. -/
theorem create_recall (world : World) (history : List Happening) (present : Database → Bool)
    (statement : Database → Database) :
    (world.recall history).create handle present statement =
      ((world.create handle present statement).1,
        (world.create handle present statement).2.recall history) := by
  have hview : (world.recall history).view handle = world.view handle := rfl
  unfold World.create
  rw [hview]
  cases world.view handle with
  | error raised => rfl
  | ok database =>
      dsimp only
      split
      · rfl
      · exact write_recall world history _

/-- No action looks at the history. -/
theorem perform_recall (action : Action) (world : World) (history : List Happening) :
    perform image handle action (world.recall history) =
      ((perform image handle action world).1,
        (perform image handle action world).2.recall history) := by
  cases action with
  | insertAttempt | updateAttempt | insertEvent => exact write_recall world history _
  | createAttempts | createEvents => exact create_recall world history _ _
  | readSeal | readDatabase | openTemporary | replaceSeal | beginImmediate | commit | rollback =>
      obtain ⟨database, writer, texts, fresh, sealInode, temporaryInode, past⟩ := world
      unfold perform World.recall
      dsimp only
      repeat' split
      all_goals rfl
  | _ => rfl

/-- No program looks at the history. -/
theorem run_recall {Value : Type} (rest : Program Action Reply Value) (world : World)
    (history : List Happening) :
    rest.run (perform image handle) (world.recall history) =
      ((rest.run (perform image handle) world).1,
        (rest.run (perform image handle) world).2.recall history) := by
  induction rest generalizing world with
  | done value => rfl
  | act action next ih =>
      rw [Program.run, perform_recall, ih]
      rfl

/-- A world rests whatever its history is. -/
theorem World.Rests.recall {world : World} {phase : Phase} (hrests : world.Rests image phase)
    (history : List Happening) : (world.recall history).Rests image phase :=
  ⟨hrests.resealed, hrests.idle, hrests.tables, hrests.holds.attempts, hrests.holds.events⟩

/-- A world rests with one more happening. -/
theorem World.Rests.record {world : World} {phase : Phase} (hrests : world.Rests image phase)
    (happening : Happening) : (world.record happening).Rests image phase :=
  hrests.recall (happening :: world.history)

end Recall

/-! ## What calls have returned -/

/-- The calls that have returned, oldest first, and what they answered. -/
def World.calls (world : World) : List (Operation × Except Raised Unit) :=
  world.history.reverse.filterMap fun
    | .returned _ operation outcome => some (operation, outcome)
    | _ => none

/-- The calls are read off the history. -/
theorem calls_of_history {before after : World} (h : after.history = before.history) :
    after.calls = before.calls := by
  rw [World.calls, h, World.calls]

/-- An action is no call. -/
theorem calls_performed (world : World) (handle : Handle) (action : Action)
    (reply : Reply action) (database : Option Database) :
    (world.record (.performed handle action reply database)).calls = world.calls := by
  rw [World.calls, World.record, List.reverse_cons, List.filterMap_append]
  exact List.append_nil _

/-- A commit that applies is no call. -/
theorem calls_applied (world : World) (handle : Handle) :
    (world.record (.applied handle)).calls = world.calls := by
  rw [World.calls, World.record, List.reverse_cons, List.filterMap_append]
  exact List.append_nil _

/-- A call is counted when it returns. -/
theorem calls_returned (world : World) (handle : Handle) (operation : Operation)
    (outcome : Except Raised Unit) :
    (world.record (.returned handle operation outcome)).calls =
      world.calls ++ [(operation, outcome)] := by
  rw [World.calls, World.record, List.reverse_cons, List.filterMap_append]
  rfl

/-- The phase that the machine reaches with the calls that have returned. -/
def World.phase (world : World) : Phase := phases.run .absent (world.calls.map Prod.fst)

/-! ## Runs -/

/-- At most one call is running. -/
def System.OneAtATime (system : System) : Prop :=
  ∀ first operation rest second other others,
    system.status first = .running operation rest →
    system.status second = .running other others → first = second

/-- A step without an error of the environment, after which calls do not overlap. -/
def SerialStep (image : Database → Bytes) (before after : System) : Prop :=
  Step (Works image) before after ∧ after.OneAtATime

/-- Where a system without overlapping calls stands in this phase. -/
inductive Standing (image : Database → Bytes) (system : System) (phase : Phase) : Prop where
  /-- Nothing has been called. -/
  | fresh (hphase : phase = .absent) (hcalls : system.world.calls = [])
      (hdatabase : system.world.database = none) (hwriter : system.world.writer = none)
      (hstatus : ∀ handle, system.status handle = .absent)
  /-- No call is running. -/
  | idle (hrests : system.world.Rests image phase) (hidle : system.Idle)
  /-- What is left of the running call ends as the machine says. -/
  | running {handle : Handle} {operation : Operation}
      {rest : Program Action Reply (Except Raised Unit)}
      (hstatus : system.status handle = .running operation rest)
      (hwriter : ∀ holder pending, system.world.writer = some (holder, pending) → holder = handle)
      (hends : (rest.run (perform image handle) system.world).1 =
          (phases.step phase operation).1 ∧
        (rest.run (perform image handle) system.world).2.Rests image
          (phases.step phase operation).2)

/-- The returned calls are answered by the machine, and the system stands in its phase. -/
structure Serially (image : Database → Bytes) (system : System) : Prop where
  answered : system.world.calls.map Prod.snd =
    (phases.trace .absent (system.world.calls.map Prod.fst)).map Transition.output
  alone : system.OneAtATime
  standing : Standing image system system.world.phase

section Steps

variable {image : Database → Bytes} {system after : System} {handle : Handle}

/-- A handle has the status that is set. -/
theorem status_set (system : System) (handle : Handle) (status : Status) (world : World) :
    (system.set handle status world).status handle = status := if_pos rfl

/-- Before the first call, the system has run serially. -/
theorem serially_start (image : Database → Bytes) : Serially image .start := by
  refine ⟨rfl, ?_, .fresh rfl rfl rfl rfl fun _ => rfl⟩
  intro first operation rest second other others hfirst
  cases hfirst

/-- The answers stay right while no call returns. -/
theorem answered_of_calls {before world : World} (hcalls : world.calls = before.calls)
    (hanswered : before.calls.map Prod.snd =
      (phases.trace .absent (before.calls.map Prod.fst)).map Transition.output) :
    world.calls.map Prod.snd =
      (phases.trace .absent (world.calls.map Prod.fst)).map Transition.output := by
  rw [hcalls, hanswered]

/-- The phase is read off the calls. -/
theorem phase_of_calls {before world : World} (hcalls : world.calls = before.calls) :
    world.phase = before.phase := by
  rw [World.phase, hcalls, World.phase]

/-- A call begins where no call is running. -/
theorem serially_call {operation : Operation} (hserially : Serially image system)
    (hadmits : (system.status handle).Admits operation)
    (halone : (system.set handle (.running operation operation.call.run)
      system.world).OneAtATime) :
    Serially image (system.set handle (.running operation operation.call.run) system.world) := by
  refine ⟨hserially.answered, halone, ?_⟩
  change Standing image _ system.world.phase
  cases hserially.standing with
  | fresh hphase hcalls hdatabase hwriter hstatus =>
      -- the first call is a constructor
      rw [hstatus handle] at hadmits
      cases hadmits
      obtain ⟨opened, hopened, hrests⟩ := rests_constructed image handle hwriter hdatabase
      have hrun : Operation.construct.call.run.run (perform image handle) system.world =
          (.ok (), opened) := hopened
      have hends : (Operation.construct.call.run.run (perform image handle) system.world).1 =
            (phases.step .absent .construct).1 ∧
          (Operation.construct.call.run.run (perform image handle) system.world).2.Rests image
            (phases.step .absent .construct).2 := by
        rw [hrun]
        exact ⟨rfl, hrests⟩
      rw [hphase]
      refine .running (status_set _ _ _ _) ?_ hends
      intro holder pending hwrites
      rw [show (system.set handle _ system.world).world.writer = none from hwriter] at hwrites
      cases hwrites
  | idle hrests hidle =>
      refine .running (status_set _ _ _ _) ?_ (call_follows hrests operation)
      intro holder pending hwrites
      rw [show (system.set handle _ system.world).world.writer = none from hrests.idle] at hwrites
      cases hwrites
  | @running other current rest hstatus hwriter hends =>
      -- another call cannot be running
      have hne : other ≠ handle := by
        rintro rfl
        rw [hstatus] at hadmits
        exact hadmits
      have hother : (system.set handle (.running operation operation.call.run)
          system.world).status other = .running current rest := (if_neg hne).trans hstatus
      exact absurd (halone _ _ _ _ _ _ hother (status_set _ _ _ _)) hne

/-- The running call acts, and what is left of it still ends the same way. -/
theorem serially_act {operation : Operation} {action : Action}
    {next : Reply action → Program Action Reply (Except Raised Unit)} {reply : Reply action}
    {world : World} (hserially : Serially image system)
    (hstatus : system.status handle = .running operation (.act action next))
    (hworks : Works image handle system.world action reply world)
    (halone : (system.set handle (.running operation (next reply)) world).OneAtATime) :
    Serially image (system.set handle (.running operation (next reply)) world) := by
  obtain ⟨performed, hperform, rfl⟩ := hworks
  have hhistory : performed.history = system.world.history := by
    have h := @perform_history image handle action system.world
    rwa [hperform] at h
  have hcalls : (performed.record (.performed handle action reply performed.database)).calls =
      system.world.calls := (calls_performed _ _ _ _ _).trans (calls_of_history hhistory)
  refine ⟨answered_of_calls hcalls hserially.answered, halone, ?_⟩
  change Standing image _ (performed.record _).phase
  rw [phase_of_calls hcalls]
  cases hserially.standing with
  | fresh hphase hcalls hdatabase hwriter habsent =>
      rw [habsent handle] at hstatus
      cases hstatus
  | idle hrests hidle => exact absurd hstatus (hidle handle _ _)
  | @running other current rest hother hwriter hends =>
      cases hserially.alone _ _ _ _ _ _ hother hstatus
      rw [hstatus] at hother
      cases hother
      rw [Program.run, hperform] at hends
      refine .running (status_set _ _ _ _) ?_ ?_
      · intro holder pending hwrites
        have hperformed : (perform image handle action system.world).2.writer =
            some (holder, pending) := by
          rw [hperform]
          exact hwrites
        rcases perform_writer hperformed with ⟨hholder, _⟩ | ⟨held, hheld⟩
        · exact hholder
        · exact hwriter holder held hheld
      · change ((next reply).run (perform image handle) (performed.recall _)).1 = _ ∧
          ((next reply).run (perform image handle) (performed.recall _)).2.Rests image _
        rw [run_recall]
        exact ⟨hends.1, hends.2.recall _⟩

/-- The running call returns, and the machine takes its step. -/
theorem serially_ends {operation : Operation} {outcome : Except Raised Unit}
    (hserially : Serially image system)
    (hstatus : system.status handle = .running operation (.done outcome))
    (halone : (system.set handle (.after operation outcome)
      (system.world.record (.returned handle operation outcome))).OneAtATime) :
    Serially image (system.set handle (.after operation outcome)
      (system.world.record (.returned handle operation outcome))) := by
  cases hserially.standing with
  | fresh hphase hcalls hdatabase hwriter habsent =>
      rw [habsent handle] at hstatus
      cases hstatus
  | idle hrests hidle => exact absurd hstatus (hidle handle _ _)
  | @running other current rest hother hwriter hends =>
      cases hserially.alone _ _ _ _ _ _ hother hstatus
      rw [hstatus] at hother
      cases hother
      obtain ⟨houtcome, hrests⟩ := hends
      have hcalls := calls_returned system.world handle operation outcome
      have hphase : (system.world.record (.returned handle operation outcome)).phase =
          (phases.step system.world.phase operation).2 := by
        rw [World.phase, hcalls, List.map_append, List.map_singleton, Machine.run_concat,
          World.phase]
      refine ⟨?_, halone, ?_⟩
      · change (World.record _ _).calls.map _ = List.map _ (phases.trace _
          ((World.record _ _).calls.map _))
        rw [hcalls, List.map_append, List.map_append, List.map_singleton, List.map_singleton,
          Machine.trace_concat, List.map_append, hserially.answered]
        exact congrArg (_ ++ [·]) houtcome
      · change Standing image _ (World.record _ _).phase
        rw [hphase]
        refine .idle (hrests.record _) ?_
        intro other current rest hother
        by_cases hsame : other = handle
        · subst hsame
          rw [status_set] at hother
          cases operation <;> cases outcome <;> cases hother
        · have hstill : system.status other = .running current rest :=
            (if_neg hsame).symm.trans hother
          exact hsame (hserially.alone _ _ _ _ _ _ hstill hstatus)

/-- A handle between its calls does something that no call can see. -/
theorem serially_aside {status : Status} {world : World} (hserially : Serially image system)
    (hready : system.status handle = .ready)
    (hstatus : ∀ operation rest, status ≠ .running operation rest)
    (hworld : system.world.IdleAt handle →
      ∃ history, world = system.world.recall history ∧ world.calls = system.world.calls)
    (halone : (system.set handle status world).OneAtATime) :
    Serially image (system.set handle status world) := by
  have hfree : system.world.IdleAt handle := by
    intro pending hheld
    cases hserially.standing with
    | fresh hphase hcalls hdatabase hwriter habsent =>
        rw [hwriter] at hheld
        cases hheld
    | idle hrests hidle =>
        rw [hrests.idle] at hheld
        cases hheld
    | running hother hwriter hends =>
        rw [← hwriter handle pending hheld, hready] at hother
        cases hother
  obtain ⟨history, rfl, hcalls⟩ := hworld hfree
  refine ⟨answered_of_calls hcalls hserially.answered, halone, ?_⟩
  change Standing image _ (system.world.recall history).phase
  rw [phase_of_calls hcalls]
  cases hserially.standing with
  | fresh hphase hnone hdatabase hwriter habsent =>
      rw [habsent handle] at hready
      cases hready
  | idle hrests hidle =>
      refine .idle (hrests.recall history) ?_
      intro other current rest hother
      by_cases hsame : other = handle
      · subst hsame
        rw [status_set] at hother
        exact hstatus _ _ hother
      · exact hidle other current rest ((if_neg hsame).symm.trans hother)
  | @running other current rest hother hwriter hends =>
      have hne : other ≠ handle := by
        rintro rfl
        rw [hready] at hother
        cases hother
      refine .running ((if_neg hne).trans hother) hwriter ?_
      change (rest.run (perform image other) (system.world.recall history)).1 = _ ∧
        (rest.run (perform image other) (system.world.recall history)).2.Rests image _
      rw [run_recall]
      exact ⟨hends.1, hends.2.recall history⟩

/-- A serial step keeps the system serial. -/
theorem Serially.step (hserially : Serially image system) (hstep : SerialStep image system after) :
    Serially image after := by
  obtain ⟨hstep, halone⟩ := hstep
  cases hstep with
  | call hadmits => exact serially_call hserially hadmits halone
  | act hstatus hworks => exact serially_act hserially hstatus hworks halone
  | ends hstatus => exact serially_ends hserially hstatus halone
  | @close handle hready =>
      refine serially_aside hserially hready (fun _ _ h => by cases h) ?_ halone
      intro hfree
      have hreleased : system.world.release handle = system.world := by
        rcases release_cases system.world handle with ⟨⟨pending, hheld⟩, _⟩ | ⟨_, hreleased⟩
        · exact absurd hheld (hfree pending)
        · exact hreleased
      rw [hreleased]
      exact ⟨system.world.history, rfl, rfl⟩
  | @apply handle hready hpermitted =>
      refine serially_aside hserially hready (fun _ _ h => by cases h) ?_ halone
      intro _
      exact ⟨_, rfl, calls_applied system.world handle⟩

/-- Every serial run is serial. -/
theorem serially_of_run (hrun : Relation.ReflTransGen (SerialStep image) .start system) :
    Serially image system := by
  induction hrun with
  | refl => exact serially_start image
  | tail _ hstep ih => exact ih.step hstep

end Steps

/-- In a run without overlapping calls the calls have returned what the machine of phases
answers; and when none is running, any handle reads the phase that the machine is in. -/
theorem serial_run_answers {image : Database → Bytes} {system : System}
    (hrun : Relation.ReflTransGen (SerialStep image) .start system) :
    system.world.calls.map Prod.snd =
        (phases.trace .absent (system.world.calls.map Prod.fst)).map Transition.output ∧
      (system.Idle → system.world.calls ≠ [] →
        ∀ reader, Shows image reader system.world system.world.phase) := by
  have hserially := serially_of_run hrun
  refine ⟨hserially.answered, ?_⟩
  intro hidle hcalled reader
  cases hserially.standing with
  | fresh hphase hcalls => exact absurd hcalls hcalled
  | idle hrests => exact shows_of_rests hrests reader
  | running hstatus => exact absurd hstatus (hidle _ _ _)

/-! ## Schedules in turns -/

/-- Only this handle may be in the middle of a call. -/
def System.Sole (system : System) (handle : Handle) : Prop :=
  ∀ other operation rest, system.status other = .running operation rest → other = handle

section Turns

variable {image : Database → Bytes} {system : System} {handle : Handle}

/-- A handle that is alone takes its actions one at a time. -/
theorem System.Sole.oneAtATime (hsole : system.Sole handle) : system.OneAtATime := by
  intro first operation rest second other others hfirst hsecond
  exact (hsole first _ _ hfirst).trans (hsole second _ _ hsecond).symm

/-- The turn passes to another handle when the call has ended. -/
theorem System.Sole.pass (hsole : system.Sole handle)
    (hdone : (system.status handle).isRunning = false) (next : Handle) : system.Sole next := by
  intro other operation rest hother
  cases hsole other operation rest hother
  rw [hother] at hdone
  cases hdone

/-- A handle stays alone while it pursues its choice. -/
theorem sole_pursue {choice : Choice} (hsole : system.Sole choice.handle) :
    (system.pursue image choice).Sole choice.handle := by
  intro other operation rest hother
  by_contra hne
  rw [System.pursue_status system choice hne] at hother
  exact hne (hsole other operation rest hother)

/-- The choices of one handle are a run in which calls do not overlap. -/
theorem follow_serially {choices : List Choice}
    (hchoices : ∀ choice ∈ choices, choice.handle = handle) (hsole : system.Sole handle) :
    Relation.ReflTransGen (SerialStep image) system (system.follow image choices) ∧
      (system.follow image choices).Sole handle := by
  induction choices generalizing system with
  | nil => exact ⟨.refl, hsole⟩
  | cons choice rest ih =>
      have hhandle := hchoices choice List.mem_cons_self
      subst hhandle
      have hnext : (system.pursue image choice).Sole choice.handle := sole_pursue hsole
      obtain ⟨hrest, hlast⟩ :=
        ih (fun next hmem => hchoices next (List.mem_cons_of_mem _ hmem)) hnext
      refine ⟨?_, hlast⟩
      rcases @System.pursue_performs image (Works image) system choice
        fun _ _ world h => ⟨world, h, rfl⟩ with hsame | hstep
      · rw [hsame] at hrest
        rw [System.follow, List.foldl_cons, hsame]
        exact hrest
      · exact (Relation.ReflTransGen.single ⟨hstep, hnext.oneAtATime⟩).trans hrest

end Turns

/-- Two handles in turn: the second one consumes what the first one has prepared, and
the first one is refused. -/
theorem serial_run_answers_of_turns :
    ∃ system, Relation.ReflTransGen (SerialStep Database.countChanges) .start system ∧
      system.world.calls = [(.construct, .ok ()), (.prepare, .ok ()), (.construct, .ok ()),
        (.consume, .ok ()),
        (.consume, .error (.protocol "attempt is not uniquely prepared"))] ∧
      system.world.calls.map Prod.snd =
        (phases.trace .absent (system.world.calls.map Prod.fst)).map Transition.output ∧
      Shows Database.countChanges 1 system.world system.world.phase := by
  have hsole : System.start.Sole 0 := by
    intro other operation rest hother
    cases hother
  obtain ⟨hfirst, hsole⟩ := @follow_serially Database.countChanges _ 0
    (wholeCall 0 .construct ++ wholeCall 0 .prepare) (by simp [wholeCall, Choice.handle]) hsole
  obtain ⟨hsecond, hsole⟩ := @follow_serially Database.countChanges _ 1
    (wholeCall 1 .construct ++ wholeCall 1 .consume) (by simp [wholeCall, Choice.handle])
    (hsole.pass (by decide +kernel) 1)
  obtain ⟨hthird, hsole⟩ := @follow_serially Database.countChanges _ 0
    (wholeCall 0 .consume) (by simp [wholeCall, Choice.handle])
    (hsole.pass (by decide +kernel) 0)
  have hrun := (hfirst.trans hsecond).trans hthird
  obtain ⟨hanswers, hshows⟩ := serial_run_answers hrun
  refine ⟨_, hrun, by decide +kernel, hanswers, hshows ?_ (by decide +kernel) 1⟩
  intro handle operation rest hrunning
  cases hsole handle operation rest hrunning
  cases hsole.pass (by decide +kernel) 1 0 operation rest hrunning

end Oasi.Broker
