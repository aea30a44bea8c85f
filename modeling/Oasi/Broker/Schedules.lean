import Oasi.Broker.Handles

/-! # Schedules

A schedule says which handle moves next. Followed without errors of the
environment it leads to one system, which can be computed.
-/

namespace Oasi.Broker

inductive Choice where
  | call (handle : Handle) (operation : Operation)
  | move (handle : Handle)
  | apply (handle : Handle)

def Choice.handle : Choice → Handle
  | .call handle _ | .move handle | .apply handle => handle

def Status.isRunning : Status → Bool
  | .running _ _ => true
  | _ => false

/-- The call of a handle from its beginning to its end. -/
def wholeCall (handle : Handle) (operation : Operation) : List Choice :=
  .call handle operation :: List.replicate 32 (.move handle)

/-- A file format that shows how often the file was committed. -/
def Database.countChanges (database : Database) : Bytes := [UInt8.ofNat database.changes]

/-- One handle prepares the attempt and another one consumes it; the first one
tries, too, and is refused. -/
def race : List Choice :=
  wholeCall 0 .construct ++ wholeCall 0 .prepare ++ wholeCall 1 .construct ++
    wholeCall 1 .consume ++ wholeCall 0 .consume ++ [.apply 1, .apply 0]

namespace System

def admits : Status → Operation → Bool
  | .absent, operation => operation == .construct
  | .ready, operation => operation != .construct
  | .running _ _, _ => false

/-- The step a choice stands for; a choice that does not apply changes nothing. -/
def pursue (image : Database → Bytes) (system : System) : Choice → System
  | .call handle operation =>
      if admits (system.status handle) operation then
        system.set handle (.running operation operation.call.run) system.world
      else system
  | .move handle =>
      match system.status handle with
      | .running operation (.act action next) =>
          let (reply, world) := perform image handle action system.world
          system.set handle (.running operation (next reply))
            (world.record (.performed handle action reply world.database))
      | .running operation (.done outcome) =>
          system.set handle (.after operation outcome)
            (system.world.record (.returned handle operation outcome))
      | _ => system
  | .apply handle =>
      match system.status handle with
      | .ready =>
          if system.world.appliers.count handle < system.world.consumers.count handle then
            system.set handle .ready (system.world.record (.applied handle))
          else system
      | _ => system

def follow (image : Database → Bytes) (system : System) (choices : List Choice) : System :=
  choices.foldl (pursue image) system

variable {image : Database → Bytes}

theorem follow_append (system : System) (first second : List Choice) :
    (system.follow image first).follow image second = system.follow image (first ++ second) :=
  List.foldl_append.symm

theorem admits_of_admits {status : Status} {operation : Operation}
    (h : admits status operation = true) : status.Admits operation := by
  cases status with
  | absent => simpa [admits, Status.Admits] using h
  | ready => simpa [admits, Status.Admits] using h
  | running current rest => cases h

/-- A choice is a step when the action it may perform happens as it should. -/
theorem pursue_performs {performs : Performing} (system : System) (choice : Choice)
    (h : ∀ action reply world, perform image choice.handle action system.world = (reply, world) →
      performs choice.handle system.world action reply
        (world.record (.performed choice.handle action reply world.database))) :
    system.pursue image choice = system ∨ Step performs system (system.pursue image choice) := by
  cases choice with
  | call handle operation =>
      rw [pursue]
      split
      next hadmits => exact .inr (.call (admits_of_admits hadmits))
      · exact .inl rfl
  | move handle =>
      rw [pursue]
      split
      next operation action next hstatus => exact .inr (.act hstatus (h action _ _ rfl))
      next operation outcome hstatus => exact .inr (.ends hstatus)
      · exact .inl rfl
  | apply handle =>
      rw [pursue]
      split
      next hstatus =>
        split
        next hpermitted => exact .inr (.apply hstatus hpermitted)
        · exact .inl rfl
      · exact .inl rfl

theorem follow_steps (system : System) (choices : List Choice) :
    Relation.ReflTransGen (Step (Works image)) system (system.follow image choices) := by
  induction choices generalizing system with
  | nil => exact .refl
  | cons choice rest ih =>
      have hrest := ih (system.pursue image choice)
      rw [follow, List.foldl_cons]
      rcases @pursue_performs image (Works image) system choice
        fun _ _ world h => ⟨world, h, rfl⟩ with
        hsame | hstep
      · rw [hsame] at hrest ⊢
        exact hrest
      · exact (Relation.ReflTransGen.single hstep).trans hrest

/-- A choice moves its own handle only. -/
theorem pursue_status (system : System) (choice : Choice) {other : Handle}
    (hother : other ≠ choice.handle) :
    (system.pursue image choice).status other = system.status other := by
  cases choice with
  | call handle operation =>
      rw [pursue]
      split
      · exact if_neg hother
      · rfl
  | move handle =>
      rw [pursue]
      split
      · exact if_neg hother
      · exact if_neg hother
      · rfl
  | apply handle =>
      rw [pursue]
      split
      · split
        · exact if_neg hother
        · rfl
      · rfl

theorem follow_status (system : System) (choices : List Choice) {other : Handle}
    (hother : ∀ choice ∈ choices, other ≠ choice.handle) :
    (system.follow image choices).status other = system.status other := by
  induction choices generalizing system with
  | nil => rfl
  | cons choice rest ih =>
      have hrest := ih (system.pursue image choice) fun next hnext =>
        hother next (List.mem_cons_of_mem _ hnext)
      exact hrest.trans (pursue_status system choice (hother choice List.mem_cons_self))

end System

end Oasi.Broker
