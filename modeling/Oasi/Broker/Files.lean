import Oasi.Broker.Sharing

/-! # The seal and its temporary file

The seal and the temporary file are different files, and an action that is not
about them leaves both alone. The history tells how often each action succeeded.
-/

namespace Oasi.Broker

/-! ## Names and texts -/

/-- The actions on the seal and on its temporary file. -/
def Action.onSealFiles : Action → Bool
  | .openTemporary | .writeTemporary _ _ | .replaceSeal => true
  | _ => false

/-- The text files and their names are as before. -/
structure SameFiles (before after : World) : Prop where
  texts : after.texts = before.texts
  fresh : after.fresh = before.fresh
  sealInode : after.sealInode = before.sealInode
  temporaryInode : after.temporaryInode = before.temporaryInode

namespace World

/-- What stands at `seal_path`, if there is a file. -/
def sealText (world : World) : Option String := world.sealInode.map world.texts

/-- The database file has these bytes. -/
def Contains (image : Database → Bytes) (bytes : Bytes) (world : World) : Prop :=
  world.database.map image = some bytes

/-- Names of files are in order: the seal and the temporary file are different
files, and neither has an unused inode. -/
structure Named (world : World) : Prop where
  different : ∀ inode, world.sealInode = some inode → world.temporaryInode ≠ some inode
  sealUsed : ∀ inode, world.sealInode = some inode → inode < world.fresh
  temporaryUsed : ∀ inode, world.temporaryInode = some inode → inode < world.fresh

/-- How often an action has replied normally. -/
def successes (world : World) (action : Action) : Nat :=
  world.history.countP fun
    | .performed _ performed (.ok _) _ => performed == action
    | _ => false

end World

theorem sealText_of_sameFiles {before after : World} (h : SameFiles before after) :
    after.sealText = before.sealText := by
  rw [World.sealText, World.sealText, h.texts, h.sealInode]

theorem World.Named.of_sameFiles {before after : World} (hnamed : before.Named)
    (h : SameFiles before after) : after.Named := by
  obtain ⟨hdifferent, hsealUsed, htemporaryUsed⟩ := hnamed
  constructor
  · rw [h.sealInode, h.temporaryInode]
    exact hdifferent
  · rw [h.sealInode, h.fresh]
    exact hsealUsed
  · rw [h.temporaryInode, h.fresh]
    exact htemporaryUsed

theorem World.Named.record {world : World} (hnamed : world.Named) (happening : Happening) :
    (world.record happening).Named := hnamed.of_sameFiles ⟨rfl, rfl, rfl, rfl⟩

/-- Writing to a file that is not the seal leaves the seal as it is. -/
theorem sealText_setText {world : World} {inode : Nat} (hseal : world.sealInode ≠ some inode)
    (text : String) : (world.setText inode text).sealText = world.sealText := by
  unfold World.sealText World.setText
  cases hinode : world.sealInode with
  | none => rfl
  | some sealed =>
      have hother : sealed ≠ inode := fun heq => hseal (hinode.trans (congrArg some heq))
      simp only [Option.map_some, if_neg hother]

section Files

variable {image : Database → Bytes} {handle : Handle} {before after : World}

theorem write_files (world : World) (statement : Database → Except Raised Database) :
    SameFiles world (world.write handle statement).2 := by
  rcases world.write_cases handle statement with
    ⟨_, _, _, _, hdone⟩ | ⟨_, _, _, _, _, hdone⟩ | ⟨_, hfailed⟩
  · rw [hdone]
    exact ⟨rfl, rfl, rfl, rfl⟩
  · rw [hdone]
    exact ⟨rfl, rfl, rfl, rfl⟩
  · rw [hfailed]
    exact ⟨rfl, rfl, rfl, rfl⟩

theorem create_files (world : World) (present : Database → Bool)
    (statement : Database → Database) :
    SameFiles world (world.create handle present statement).2 := by
  rcases world.create_cases handle present statement with
    ⟨_, _, _, hthere⟩ | ⟨_, _, _, hmade⟩ | ⟨_, hfailed⟩
  · rw [hthere]
    exact ⟨rfl, rfl, rfl, rfl⟩
  · rw [hmade]
    exact write_files world _
  · rw [hfailed]
    exact ⟨rfl, rfl, rfl, rfl⟩

theorem perform_files (action : Action) (haction : action.onSealFiles = false) (world : World) :
    SameFiles world (perform image handle action world).2 := by
  cases action with
  | createAttempts | createEvents => exact create_files world _ _
  | insertAttempt | updateAttempt | insertEvent => exact write_files world _
  | beginImmediate | commit | rollback | readSeal | readDatabase =>
      rw [perform]
      repeat' split
      all_goals exact ⟨rfl, rfl, rfl, rfl⟩
  | openTemporary | writeTemporary | replaceSeal => cases haction
  | _ => exact ⟨rfl, rfl, rfl, rfl⟩

theorem Acts.sameFiles {action : Action} {reply : Reply action}
    (h : Acts image handle before action reply after) (haction : action.onSealFiles = false) :
    SameFiles before after := by
  cases h with
  | @performed _ world hperform =>
      have hworld : world = (perform image handle action before).2 := by rw [hperform]
      obtain ⟨htexts, hfresh, hseal, htemporary⟩ :=
        hworld ▸ @perform_files image handle action haction before
      exact ⟨htexts, hfresh, hseal, htemporary⟩
  | @faulted world hdamages _ =>
      cases action with
      | writeTemporary => cases haction
      | _ =>
          cases hdamages
          exact ⟨rfl, rfl, rfl, rfl⟩

/-! ## The actions on the seal files -/

/-- Opening the temporary file empties it, or makes an empty one. -/
theorem acts_openTemporary {reply : Reply .openTemporary} (hnamed : before.Named)
    (h : Acts image handle before .openTemporary reply after) :
    after.Named ∧ after.sealText = before.sealText ∧
      ∀ inode, reply = .ok inode → after.temporaryInode = some inode := by
  cases h with
  | performed hperform =>
      rw [perform] at hperform
      cases htemporary : before.temporaryInode with
      | some inode =>
          rw [htemporary] at hperform
          cases hperform
          -- the file is emptied, and the seal is another one
          have hseal : before.sealInode ≠ some inode :=
            fun heq => hnamed.different inode heq htemporary
          refine ⟨⟨hnamed.different, hnamed.sealUsed, hnamed.temporaryUsed⟩,
            sealText_setText hseal "", ?_⟩
          intro opened hopened
          cases hopened
          exact htemporary
      | none =>
          rw [htemporary] at hperform
          cases hperform
          -- the new file has an inode that nothing uses
          have hseal : before.sealInode ≠ some before.fresh :=
            fun heq => Nat.lt_irrefl _ (hnamed.sealUsed _ heq)
          refine ⟨⟨?_, ?_, ?_⟩, sealText_setText hseal "", ?_⟩
          · intro inode hinode heq
            cases heq
            exact hseal hinode
          · intro inode hinode
            exact Nat.lt_succ_of_lt (hnamed.sealUsed inode hinode)
          · intro inode hinode
            cases hinode
            exact Nat.lt_succ_self _
          · intro opened hopened
            cases hopened
            rfl
  | faulted hdamages _ =>
      cases hdamages
      refine ⟨hnamed.record _, rfl, ?_⟩
      intro inode hreply
      cases hreply

theorem acts_writeTemporary {inode : Nat} {text : String}
    {reply : Reply (.writeTemporary inode text)}
    (hnamed : before.Named)
    (h : Acts image handle before (.writeTemporary inode text) reply after) :
    after.Named ∧ after.temporaryInode = before.temporaryInode ∧
      (before.sealInode ≠ some inode → after.sealText = before.sealText) ∧
      (reply = .ok () → after.texts inode = text) := by
  cases h with
  | performed hperform =>
      cases hperform
      refine ⟨⟨hnamed.different, hnamed.sealUsed, hnamed.temporaryUsed⟩, rfl,
        (fun hseal => sealText_setText hseal text), ?_⟩
      intro _
      simp only [World.record, World.setText, if_true]
  | faulted hdamages _ =>
      obtain ⟨written, rfl⟩ := hdamages
      refine ⟨⟨hnamed.different, hnamed.sealUsed, hnamed.temporaryUsed⟩, rfl,
        (fun hseal => sealText_setText hseal written), ?_⟩
      intro hreply
      cases hreply

/-- The temporary file becomes the seal. -/
theorem acts_replaceSeal {reply : Reply .replaceSeal} (hnamed : before.Named)
    (h : Acts image handle before .replaceSeal reply after) :
    after.Named ∧ after.texts = before.texts ∧
      ((∃ inode, reply = .ok () ∧ before.temporaryInode = some inode ∧
          after.sealInode = some inode ∧ after.temporaryInode = none) ∨
        (∃ raised, reply = .error raised) ∧ SameFiles before after) := by
  cases h with
  | performed hperform =>
      rw [perform] at hperform
      cases htemporary : before.temporaryInode with
      | some inode =>
          rw [htemporary] at hperform
          cases hperform
          refine ⟨⟨?_, ?_, ?_⟩, rfl, .inl ⟨inode, rfl, rfl, rfl, rfl⟩⟩
          · intro _ _ heq
            cases heq
          · intro sealed hsealed
            cases hsealed
            exact hnamed.temporaryUsed inode htemporary
          · intro _ heq
            cases heq
      | none =>
          rw [htemporary] at hperform
          cases hperform
          exact ⟨hnamed.record _, rfl, .inr ⟨⟨_, rfl⟩, rfl, rfl, rfl, rfl⟩⟩
  | faulted hdamages _ =>
      cases hdamages
      exact ⟨hnamed.record _, rfl, .inr ⟨⟨_, rfl⟩, rfl, rfl, rfl, rfl⟩⟩

theorem Acts.named {action : Action} {reply : Reply action} (hnamed : before.Named)
    (h : Acts image handle before action reply after) : after.Named := by
  cases action with
  | openTemporary => exact (acts_openTemporary hnamed h).1
  | writeTemporary => exact (acts_writeTemporary hnamed h).1
  | replaceSeal => exact (acts_replaceSeal hnamed h).1
  | _ => exact hnamed.of_sameFiles (h.sameFiles rfl)

/-- Reading the database file tells its bytes. -/
theorem acts_readDatabase {reply : Reply .readDatabase}
    (h : Acts image handle before .readDatabase reply after) :
    after.database = before.database ∧ ∀ bytes, reply = .ok bytes → after.Contains image bytes := by
  refine ⟨(h.untouched rfl).1, ?_⟩
  rintro bytes rfl
  cases h with
  | performed hperform =>
      rw [perform] at hperform
      split at hperform
      next database hdatabase =>
        cases hperform
        rw [World.Contains, World.record, hdatabase]
        rfl
      · cases hperform

theorem contains_of_same {bytes : Bytes} (hcontains : before.Contains image bytes)
    (hdatabase : after.database = before.database) : after.Contains image bytes := by
  rw [World.Contains, hdatabase]
  exact hcontains

/-! ## Counting successes -/

theorem Acts.successes {action other : Action} {reply : Reply action}
    (h : Acts image handle before action reply after) :
    after.successes other =
      before.successes other + if action = other ∧ reply.isOk then 1 else 0 := by
  rw [World.successes, h.history, List.countP_cons]
  congr 1
  cases reply with
  | ok value => by_cases haction : action = other <;> simp [haction, Except.isOk, Except.toBool]
  | error raised => simp [Except.isOk, Except.toBool]

theorem Acts.successes_ne {action other : Action} {reply : Reply action}
    (h : Acts image handle before action reply after) (haction : action ≠ other) :
    after.successes other = before.successes other := by
  rw [h.successes, if_neg (fun hboth => haction hboth.1), Nat.add_zero]

theorem Acts.successes_error {action other : Action} {raised : Raised}
    (h : Acts image handle before action (.error raised) after) :
    after.successes other = before.successes other := by
  rw [h.successes, if_neg, Nat.add_zero]
  rintro ⟨_, hok⟩
  cases hok

end Files

end Oasi.Broker
