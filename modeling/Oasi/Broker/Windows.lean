import Oasi.Broker.Files

/-! # Seals that overlap

Several handles may seal one file at the same time, through one temporary file.
The history tells how far each of them has come. As long as nobody commits while
another handle is between reading the file and replacing the seal, whatever
stands or will stand in the seal is the digest of the file.
-/

namespace Oasi.Broker

/-- How far a handle has come with the seal it owes after a commit. -/
inductive Position where
  | outside
  | committed
  | read
  | opened (inode : Nat)
  | written (inode : Nat)
  deriving DecidableEq

namespace Position

def next : Position → (action : Action) → Reply action → Position
  | outside, .commit, .ok _ => committed
  | committed, .readDatabase, .ok _ => read
  | read, .openTemporary, .ok inode => opened inode
  | opened inode, .writeTemporary _ _, .ok _ => written inode
  | written _, .replaceSeal, _ => outside
  | position, _, _ => position

/-- Between reading the file and replacing the seal. -/
def inWindow : Position → Bool
  | read | opened _ | written _ => true
  | _ => false

/-- The temporary file is open or was written. -/
def holdsFile : Position → Bool
  | opened _ | written _ => true
  | _ => false

theorem inWindow_of_holdsFile {position : Position} (h : position.holdsFile = true) :
    position.inWindow = true := by
  cases position <;> first | rfl | cases h

end Position

namespace World

/-- What a happening makes of the position of a handle. -/
def moved (handle : Handle) (happening : Happening) (position : Position) : Position :=
  match happening with
  | .performed owner action reply _ =>
      if owner = handle then position.next action reply else position
  | .returned owner _ _ => if owner = handle then .outside else position
  | .applied _ => position

def position (world : World) (handle : Handle) : Position :=
  world.history.foldr (moved handle) .outside

/-- The file has this text, or a handle is about to write it there. -/
def Covered (world : World) (text : String) (inode : Nat) : Prop :=
  world.texts inode = text ∨ ∃ handle, world.position handle = .opened inode

/-- Whatever stands or will stand in the seal is this text. -/
structure Guarded (world : World) (text : String) : Prop where
  /-- A temporary file that is about to replace the seal has it. -/
  temporary : ∀ handle inode, (world.position handle).holdsFile = true →
    world.temporaryInode = some inode → world.Covered text inode
  /-- Somebody is about to seal, or the seal has it. -/
  seals : (∃ handle, world.position handle = .committed ∨ world.position handle = .read) ∨
    (∃ handle, (world.position handle).holdsFile = true ∧ world.temporaryInode.isSome = true) ∨
    ∃ inode, world.sealInode = some inode ∧ world.Covered text inode

end World

/-- The actions that may change a position. -/
def Action.moves : Action → Bool
  | .commit | .readDatabase | .openTemporary | .writeTemporary _ _ | .replaceSeal => true
  | _ => false

theorem next_of_still {action : Action} (h : action.moves = false) (position : Position)
    (reply : Reply action) : position.next action reply = position := by
  cases action with
  | commit | readDatabase | openTemporary | writeTemporary | replaceSeal => cases h
  | _ => cases position <;> rfl

section Positions

variable {image : Database → Bytes} {handle : Handle} {before after : World}

theorem Acts.position {action : Action} {reply : Reply action}
    (h : Acts image handle before action reply after) :
    after.position handle = (before.position handle).next action reply := by
  rw [World.position, h.history, List.foldr_cons, World.moved, if_pos rfl]
  rfl

theorem Acts.position_other {action : Action} {reply : Reply action} {other : Handle}
    (h : Acts image handle before action reply after) (hother : other ≠ handle) :
    after.position other = before.position other := by
  rw [World.position, h.history, List.foldr_cons, World.moved, if_neg (Ne.symm hother)]
  rfl

/-- An action that moves no position. -/
theorem Acts.position_still {action : Action} {reply : Reply action}
    (h : Acts image handle before action reply after)
    (hstill : (before.position handle).next action reply = before.position handle)
    (other : Handle) : after.position other = before.position other := by
  by_cases hother : other = handle
  · subst hother
    rw [h.position, hstill]
  · exact h.position_other hother

end Positions

section Guards

variable {image : Database → Bytes} {handle : Handle} {before after : World} {text : String}

theorem Covered.of_same {inode : Nat} (hcovered : before.Covered text inode)
    (htexts : after.texts inode = before.texts inode)
    (hpositions : ∀ other, before.position other = .opened inode →
      after.position other = .opened inode) : after.Covered text inode := by
  rcases hcovered with htext | ⟨other, hopened⟩
  · exact .inl (htexts.trans htext)
  · exact .inr ⟨other, hpositions other hopened⟩

/-- Nothing about the seal and the positions has changed. -/
theorem Guarded.of_same (hguarded : before.Guarded text) (hfiles : SameFiles before after)
    (hpositions : ∀ other, after.position other = before.position other) :
    after.Guarded text := by
  have hcovers : ∀ inode, before.Covered text inode → after.Covered text inode := by
    intro inode hcovered
    apply Covered.of_same hcovered (by rw [hfiles.texts])
    intro other hopened
    rw [hpositions, hopened]
  constructor
  · intro other inode hholds htemporary
    rw [hpositions] at hholds
    rw [hfiles.temporaryInode] at htemporary
    exact hcovers inode (hguarded.temporary other inode hholds htemporary)
  · rw [hfiles.temporaryInode, hfiles.sealInode]
    rcases hguarded.seals with ⟨other, hother⟩ | ⟨other, hother⟩ | ⟨inode, hinode, hcovered⟩
    · exact .inl ⟨other, by rw [hpositions]; exact hother⟩
    · exact .inr (.inl ⟨other, by rw [hpositions]; exact hother⟩)
    · exact .inr (.inr ⟨inode, hinode, hcovers inode hcovered⟩)

/-! ## What each action of a seal does -/

variable {inode : Nat}

theorem guarded_open (hnew : after.position handle = .opened inode)
    (htemporary : after.temporaryInode = some inode) : after.Guarded text := by
  constructor
  · intro other found _ hfound
    rw [htemporary, Option.some.injEq] at hfound
    exact .inr ⟨handle, hfound ▸ hnew⟩
  · right
    left
    exact ⟨handle, by rw [hnew]; rfl, by rw [htemporary]; rfl⟩

variable (hothers : ∀ other, other ≠ handle →
  after.position other = before.position other)
include hothers

/-- The handle itself was not about to write there. -/
theorem Covered.of_others {inode : Nat} (hcovered : before.Covered text inode)
    (htexts : after.texts inode = before.texts inode)
    (hself : before.position handle ≠ .opened inode) : after.Covered text inode := by
  apply Covered.of_same hcovered htexts
  intro other hopened
  by_cases hother : other = handle
  · subst hother
    exact absurd hopened hself
  · rw [hothers other hother, hopened]

theorem guarded_read (hguarded : before.Guarded text) (hfiles : SameFiles before after)
    (hold : before.position handle = .committed) (hnew : after.position handle = .read) :
    after.Guarded text := by
  constructor
  · intro other inode hholds htemporary
    by_cases hother : other = handle
    · rw [hother, hnew] at hholds
      cases hholds
    · rw [hothers other hother] at hholds
      rw [hfiles.temporaryInode] at htemporary
      apply Covered.of_others hothers (hguarded.temporary other inode hholds htemporary)
      · rw [hfiles.texts]
      · rw [hold]
        simp
  · exact .inl ⟨handle, .inr hnew⟩

/-- A commit while nobody else is between reading and replacing. -/
theorem guarded_commit (hwindows : ∀ other, other ≠ handle →
      (before.position other).inWindow = false) (hnew : after.position handle = .committed) :
    after.Guarded text := by
  constructor
  · intro other inode hholds _
    by_cases hother : other = handle
    · rw [hother, hnew] at hholds
      cases hholds
    · rw [hothers other hother] at hholds
      have houtside := hwindows other hother
      rw [Position.inWindow_of_holdsFile hholds] at houtside
      cases houtside
  · exact .inl ⟨handle, .inl hnew⟩

theorem guarded_write (hguarded : before.Guarded text)
    (hold : before.position handle = .opened inode) (hnew : after.position handle = .written inode)
    (htemporary : after.temporaryInode = before.temporaryInode)
    (hseal : after.sealInode = before.sealInode) (hwritten : after.texts inode = text)
    (htexts : ∀ other, other ≠ inode → after.texts other = before.texts other) :
    after.Guarded text := by
  have hcovers : ∀ found, before.Covered text found → after.Covered text found := by
    intro found hcovered
    by_cases hfound : found = inode
    · rw [hfound]
      exact .inl hwritten
    · apply Covered.of_others hothers hcovered (htexts found hfound)
      rw [hold]
      simpa using Ne.symm hfound
  have hholdsBefore : ∀ other, (after.position other).holdsFile = true →
      (before.position other).holdsFile = true := by
    intro other hholds
    by_cases hother : other = handle
    · rw [hother, hold]
      rfl
    · rw [← hothers other hother]
      exact hholds
  constructor
  · intro other found hholds hfound
    rw [htemporary] at hfound
    exact hcovers found (hguarded.temporary other found (hholdsBefore other hholds) hfound)
  · rw [htemporary, hseal]
    rcases hguarded.seals with ⟨other, hother⟩ | ⟨other, hholds, hpresent⟩ |
      ⟨found, hfound, hcovered⟩
    · have hdifferent : other ≠ handle := by
        rintro rfl
        rw [hold] at hother
        simp at hother
      exact .inl ⟨other, by rw [hothers other hdifferent]; exact hother⟩
    · exact .inr (.inl ⟨handle, by rw [hnew]; rfl, hpresent⟩)
    · exact .inr (.inr ⟨found, hfound, hcovers found hcovered⟩)

/-- The temporary file replaces the seal, or it is gone already. -/
theorem guarded_replace (hguarded : before.Guarded text)
    (hold : before.position handle = .written inode) (hnew : after.position handle = .outside)
    (htexts : after.texts = before.texts) (htemporary : after.temporaryInode = none)
    (hseal : ∀ found, before.temporaryInode = some found → after.sealInode = some found)
    (hsame : before.temporaryInode = none → after.sealInode = before.sealInode) :
    after.Guarded text := by
  have hcovers : ∀ found, before.Covered text found → after.Covered text found := by
    intro found hcovered
    apply Covered.of_others hothers hcovered (by rw [htexts])
    rw [hold]
    simp
  constructor
  · intro other found _ hfound
    rw [htemporary] at hfound
    cases hfound
  · cases hfound : before.temporaryInode with
    | some found =>
        have hcovered := hguarded.temporary handle found (by rw [hold]; rfl) hfound
        exact .inr (.inr ⟨found, hseal found hfound, hcovers found hcovered⟩)
    | none =>
        rcases hguarded.seals with ⟨other, hother⟩ | ⟨other, _, hpresent⟩ |
          ⟨found, hsealed, hcovered⟩
        · have hdifferent : other ≠ handle := by
            rintro rfl
            rw [hold] at hother
            simp at hother
          exact .inl ⟨other, by rw [hothers other hdifferent]; exact hother⟩
        · rw [hfound] at hpresent
          cases hpresent
        · exact .inr (.inr ⟨found, (hsame hfound).trans hsealed, hcovers found hcovered⟩)

end Guards

end Oasi.Broker
