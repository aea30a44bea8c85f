import Oasi.Foundation.Bytes
import Oasi.Foundation.Stateful

/-! # Buffered writing to a file that may fail

The file is asked to write, flush or synchronize, and each request takes the next
outcome its environment has chosen; requests beyond the chosen ones succeed. The
buffer in front of it follows the standard library's buffered writer: data goes
to the buffer while it fits, a failed flush keeps what was not written, and data
as large as the whole buffer is written directly.
-/

namespace Oasi

/-- The kinds of `io::Error` that the program tells apart, and those of the
operating system. -/
inductive IoErrorKind where
  | other
  | invalidInput
  | invalidData
  | unexpectedEof
  | timedOut
  | brokenPipe
  | system (code : Nat)
  deriving DecidableEq, Repr

structure IoError where
  kind : IoErrorKind
  message : String
  deriving DecidableEq, Repr

/-- `io::Error::other`. -/
def IoError.ofMessage (message : String) : IoError := ⟨.other, message⟩

/-- What the environment does with one request to the file. -/
inductive IoOutcome where
  /-- The request is carried out in full. -/
  | accepted
  /-- A write takes at most `count + 1` bytes; other requests are carried out. -/
  | short (count : Nat)
  /-- The request has no effect. A write that takes no byte is one of these. -/
  | failed (error : IoError)
  deriving DecidableEq, Repr

def IoOutcome.Fails (outcome : IoOutcome) : Prop := ∃ error, outcome = .failed error

structure FileDevice where
  contents : Bytes
  outcomes : List IoOutcome
  deriving DecidableEq, Repr

namespace FileDevice

/-- Writes until nothing is left or a request fails. The result is the data that
was not written, with the error that stopped the loop. -/
def writeLoop (contents : Bytes) : List IoOutcome → Bytes → Option IoError × Bytes × FileDevice
  | outcomes, [] => (none, [], ⟨contents, outcomes⟩)
  | [], data => (none, [], ⟨contents ++ data, []⟩)
  | .accepted :: outcomes, data => (none, [], ⟨contents ++ data, outcomes⟩)
  | .short count :: outcomes, data =>
      writeLoop (contents ++ data.take (count + 1)) outcomes (data.drop (count + 1))
  | .failed error :: outcomes, data => (some error, data, ⟨contents, outcomes⟩)

/-- A request that writes nothing: `flush` or `sync_all`. -/
def settle : EStateM IoError FileDevice Unit := fun device =>
  match device.outcomes with
  | .failed error :: outcomes => .error error { device with outcomes := outcomes }
  | _ :: outcomes => .ok () { device with outcomes := outcomes }
  | [] => .ok () device

/-- No request will fail. -/
def Healthy (device : FileDevice) : Prop := ∀ outcome ∈ device.outcomes, ¬outcome.Fails

/-- The next request will fail. -/
def Broken (device : FileDevice) : Prop := ∃ outcome ∈ device.outcomes.head?, outcome.Fails

/-- The loop either writes everything, or a request has failed. -/
theorem writeLoop_cases (contents : Bytes) (outcomes : List IoOutcome) (data : Bytes) :
    (∃ rest, writeLoop contents outcomes data = (none, [], ⟨contents ++ data, rest⟩) ∧
      (Healthy ⟨contents, outcomes⟩ → Healthy ⟨contents ++ data, rest⟩)) ∨
    (∃ error left file, writeLoop contents outcomes data = (some error, left, file) ∧
      ¬Healthy ⟨contents, outcomes⟩) := by
  induction outcomes generalizing contents data with
  | nil =>
      cases data with
      | nil => exact .inl ⟨[], by simp [writeLoop], id⟩
      | cons byte data => exact .inl ⟨[], rfl, id⟩
  | cons outcome outcomes ih =>
      have hrest : Healthy ⟨contents, outcome :: outcomes⟩ → ∀ outcome ∈ outcomes, ¬outcome.Fails :=
        fun h other hother => h other (List.mem_cons_of_mem _ hother)
      cases data with
      | nil => exact .inl ⟨outcome :: outcomes, by simp [writeLoop], id⟩
      | cons byte data =>
          cases outcome with
          | accepted => exact .inl ⟨outcomes, rfl, hrest⟩
          | short count =>
              have hloop := ih (contents ++ (byte :: data).take (count + 1))
                ((byte :: data).drop (count + 1))
              rw [List.append_assoc, List.take_append_drop] at hloop
              rcases hloop with ⟨rest, hloop, hhealthy⟩ | ⟨error, left, file, hloop, hsick⟩
              · exact .inl ⟨rest, hloop, fun h => hhealthy (hrest h)⟩
              · exact .inr ⟨error, left, file, hloop, fun h => hsick (hrest h)⟩
          | failed error =>
              exact .inr ⟨error, _, _, rfl, fun h => h _ List.mem_cons_self ⟨error, rfl⟩⟩

/-- The loop only appends. -/
theorem prefix_writeLoop (contents : Bytes) (outcomes : List IoOutcome) (data : Bytes) :
    contents <+: (writeLoop contents outcomes data).2.2.contents := by
  induction outcomes generalizing contents data with
  | nil => cases data <;> simp [writeLoop]
  | cons outcome outcomes ih =>
      cases data with
      | nil => exact List.prefix_rfl
      | cons byte data =>
          cases outcome with
          | accepted => exact List.prefix_append _ _
          | short count => exact (List.prefix_append _ _).trans (ih _ _)
          | failed error => exact List.prefix_rfl

/-- A broken file takes no byte, and the loop fails. -/
theorem writeLoop_broken {contents : Bytes} {outcomes : List IoOutcome} {data : Bytes}
    (h : Broken ⟨contents, outcomes⟩) (hdata : data ≠ []) :
    ∃ error rest, writeLoop contents outcomes data = (some error, data, ⟨contents, rest⟩) := by
  obtain ⟨outcome, hhead, error, rfl⟩ := h
  cases outcomes with
  | nil => cases hhead
  | cons first rest =>
      cases hhead
      cases data with
      | nil => exact absurd rfl hdata
      | cons byte data => exact ⟨error, rest, rfl⟩

end FileDevice

/-! ## The buffer -/

structure BufWriter where
  buffer : Bytes
  file : FileDevice
  deriving DecidableEq, Repr

namespace BufWriter

/-- The capacity `BufWriter::new` reserves. -/
def capacity : Nat := 8192

/-- An empty buffer in front of an empty file. -/
def new : BufWriter := ⟨[], ⟨[], []⟩⟩

def spareCapacity (writer : BufWriter) : Nat := capacity - writer.buffer.length

/-- Moves the buffer to the file and keeps what could not be written. -/
def flushBuf : EStateM IoError BufWriter Unit := fun writer =>
  match FileDevice.writeLoop writer.file.contents writer.file.outcomes writer.buffer with
  | (none, rest, file) => .ok () ⟨rest, file⟩
  | (some error, rest, file) => .error error ⟨rest, file⟩

def writeToBuffer (data : Bytes) : EStateM IoError BufWriter Unit :=
  modify fun writer => { writer with buffer := writer.buffer ++ data }

/-- Writes past the buffer; what could not be written is lost. -/
def writeDirect (data : Bytes) : EStateM IoError BufWriter Unit := fun writer =>
  match FileDevice.writeLoop writer.file.contents writer.file.outcomes data with
  | (none, _, file) => .ok () { writer with file := file }
  | (some error, _, file) => .error error { writer with file := file }

def writeAll (data : Bytes) : EStateM IoError BufWriter Unit := do
  if data.length < (← get).spareCapacity then writeToBuffer data
  else
    if (← get).spareCapacity < data.length then flushBuf
    if capacity ≤ data.length then writeDirect data else writeToBuffer data

def settleFile : EStateM IoError BufWriter Unit :=
  onPart BufWriter.file (fun writer file => { writer with file := file }) id FileDevice.settle

def flush : EStateM IoError BufWriter Unit := do
  flushBuf
  settleFile

/-- The file once the writer is dropped: the buffer is moved to it as far as that goes,
and an error is ignored. -/
def drop (writer : BufWriter) : FileDevice :=
  match flushBuf writer with
  | .ok _ after => after.file
  | .error _ after => after.file

/-! ### Requests that are carried out -/

/-- Everything handed to the writer so far, in the file or still in the buffer. -/
def written (writer : BufWriter) : Bytes := writer.file.contents ++ writer.buffer

/-- The writer has been given this data, and its file is healthy if it was so
when `healthy` was asked. -/
def Holds (healthy : Prop) (data : Bytes) (writer : BufWriter) : Prop :=
  (healthy → writer.file.Healthy) ∧ writer.written = data

section Accepted

variable {healthy : Prop} {writer : BufWriter} {earlier : Bytes}

/-- Writing the buffer out keeps what was written, and empties the buffer. -/
theorem flushBuf_holds (h : Holds healthy earlier writer) :
    Ends flushBuf writer (fun _ after => Holds healthy earlier after ∧ after.buffer = [])
      (fun _ _ => ¬healthy) := by
  have hwritten : writer.file.contents ++ writer.buffer = earlier := h.2
  rcases FileDevice.writeLoop_cases writer.file.contents writer.file.outcomes writer.buffer with
    ⟨rest, hloop, hhealthy⟩ | ⟨error, left, file, hloop, hsick⟩
  · rw [hwritten] at hloop hhealthy
    simp only [Ends, flushBuf, hloop]
    exact ⟨⟨fun hasked => hhealthy (h.1 hasked), List.append_nil _⟩, trivial⟩
  · simp only [Ends, flushBuf, hloop]
    exact fun hasked => hsick (h.1 hasked)

/-- Writing to the buffer adds the data. -/
theorem writeToBuffer_holds (data : Bytes) (h : Holds healthy earlier writer) :
    Ends (writeToBuffer data) writer (fun _ after => Holds healthy (earlier ++ data) after)
      (fun _ _ => ¬healthy) := by
  refine ⟨h.1, ?_⟩
  rw [← h.2, written, written, List.append_assoc]

/-- Writing past an empty buffer adds the data. -/
theorem writeDirect_holds (data : Bytes) (h : Holds healthy earlier writer)
    (hbuffer : writer.buffer = []) :
    Ends (writeDirect data) writer (fun _ after => Holds healthy (earlier ++ data) after)
      (fun _ _ => ¬healthy) := by
  have hwritten : writer.file.contents = earlier := by simpa [written, hbuffer] using h.2
  rcases FileDevice.writeLoop_cases writer.file.contents writer.file.outcomes data with
    ⟨rest, hloop, hhealthy⟩ | ⟨error, left, file, hloop, hsick⟩
  · rw [hwritten] at hloop hhealthy
    simp only [Ends, writeDirect, hwritten, hloop]
    refine ⟨fun hasked => hhealthy (hwritten ▸ h.1 hasked), ?_⟩
    simp [written, hbuffer]
  · simp only [Ends, writeDirect, hloop]
    exact fun hasked => hsick (h.1 hasked)

/-- Writing adds the data, whether it fits the buffer or not. -/
theorem writeAll_holds (data : Bytes) (h : Holds healthy earlier writer) :
    Ends (writeAll data) writer (fun _ after => Holds healthy (earlier ++ data) after)
      (fun _ _ => ¬healthy) := by
  unfold writeAll
  rw [ends_bind, ends_get, ends_ite]
  refine ⟨fun _ => writeToBuffer_holds data h, fun hfull => ?_⟩
  rw [ends_bind, ends_get]
  by_cases hflush : writer.spareCapacity < data.length
  · rw [if_pos hflush, ends_bind]
    refine (flushBuf_holds h).imp fun _ flushed hflushed => ?_
    rw [ends_ite]
    exact ⟨fun _ => writeDirect_holds data hflushed.1 hflushed.2,
      fun _ => writeToBuffer_holds data hflushed.1⟩
  · -- The data fills the buffer exactly, so only an empty buffer takes the direct path.
    rw [if_neg hflush]
    dsimp only
    rw [ends_ite]
    refine ⟨fun hlarge => writeDirect_holds data h ?_, fun _ => writeToBuffer_holds data h⟩
    have hbuffer : writer.buffer.length = 0 := by
      unfold spareCapacity at hflush hfull
      simp only [capacity] at *
      omega
    exact List.eq_nil_of_length_eq_zero hbuffer

/-- Writing pieces adds them one after the other. -/
theorem writePieces_holds (pieces : List Bytes) (h : Holds healthy earlier writer) :
    Ends (forM pieces writeAll) writer
      (fun _ after => Holds healthy (earlier ++ pieces.flatten) after) (fun _ _ => ¬healthy) := by
  refine (@ends_forM _ _ _ pieces writeAll writer (fun rest writer =>
    ∃ done, done ++ rest.flatten = earlier ++ pieces.flatten ∧ Holds healthy done writer)
    (fun _ _ => ¬healthy) ⟨earlier, rfl, h⟩ ?_).imp ?_
  · rintro piece rest writer ⟨done, hdone, hholds⟩
    refine (writeAll_holds piece hholds).imp fun _ after hafter => ?_
    exact ⟨done ++ piece, by simpa using hdone, hafter⟩
  · rintro _ after ⟨done, hdone, hholds⟩
    rw [List.flatten_nil, List.append_nil] at hdone
    exact hdone ▸ hholds

/-- Settling the file changes nothing that was written. -/
theorem settleFile_holds (h : Holds healthy earlier writer) :
    Ends settleFile writer
      (fun _ after => Holds healthy earlier after ∧ after.buffer = writer.buffer)
      (fun _ _ => ¬healthy) := by
  obtain ⟨buffer, contents, outcomes⟩ := writer
  rw [settleFile, ends_onPart]
  cases outcomes with
  | nil => exact ⟨h, rfl⟩
  | cons outcome outcomes =>
      have hrest : healthy → ∀ outcome ∈ outcomes, ¬outcome.Fails :=
        fun hasked other hother => h.1 hasked other (List.mem_cons_of_mem _ hother)
      cases outcome with
      | accepted => exact ⟨⟨hrest, h.2⟩, rfl⟩
      | short count => exact ⟨⟨hrest, h.2⟩, rfl⟩
      | failed error => exact fun hasked => h.1 hasked _ List.mem_cons_self ⟨error, rfl⟩

/-- A flush empties the buffer into the file. -/
theorem flush_holds (h : Holds healthy earlier writer) :
    Ends flush writer (fun _ after => Holds healthy earlier after ∧ after.buffer = [])
      (fun _ _ => ¬healthy) := by
  rw [flush, ends_bind]
  refine (flushBuf_holds h).imp fun _ flushed hflushed => ?_
  refine (settleFile_holds hflushed.1).imp fun _ after hafter => ?_
  exact ⟨hafter.1, hafter.2.trans hflushed.2⟩

end Accepted

/-! ### Files that only grow -/

/-- The file begins with these bytes. -/
def Begins (contents : Bytes) (writer : BufWriter) : Prop := contents <+: writer.file.contents

section Growing

variable {writer : BufWriter} {contents : Bytes}

/-- Writing the buffer out leaves the beginning of the file. -/
theorem flushBuf_begins (h : Begins contents writer) :
    Ends flushBuf writer (fun _ after => Begins contents after)
      (fun _ after => Begins contents after) := by
  have hgrows := h.trans
    (FileDevice.prefix_writeLoop writer.file.contents writer.file.outcomes writer.buffer)
  rcases hloop : FileDevice.writeLoop writer.file.contents writer.file.outcomes writer.buffer with
    ⟨_ | error, left, file⟩
  all_goals
    rw [hloop] at hgrows
    simp only [Ends, flushBuf, hloop]
    exact hgrows

/-- Writing past the buffer leaves the beginning of the file. -/
theorem writeDirect_begins (data : Bytes) (h : Begins contents writer) :
    Ends (writeDirect data) writer (fun _ after => Begins contents after)
      (fun _ after => Begins contents after) := by
  have hgrows := h.trans
    (FileDevice.prefix_writeLoop writer.file.contents writer.file.outcomes data)
  rcases hloop : FileDevice.writeLoop writer.file.contents writer.file.outcomes data with
    ⟨_ | error, left, file⟩
  all_goals
    rw [hloop] at hgrows
    simp only [Ends, writeDirect, hloop]
    exact hgrows

/-- Writing leaves the beginning of the file. -/
theorem writeAll_begins (data : Bytes) (h : Begins contents writer) :
    Ends (writeAll data) writer (fun _ after => Begins contents after)
      (fun _ after => Begins contents after) := by
  unfold writeAll
  rw [ends_bind, ends_get, ends_ite]
  refine ⟨fun _ => h, fun _ => ?_⟩
  rw [ends_bind, ends_get]
  by_cases hflush : writer.spareCapacity < data.length
  · rw [if_pos hflush, ends_bind]
    refine (flushBuf_begins h).imp fun _ flushed hflushed => ?_
    rw [ends_ite]
    exact ⟨fun _ => writeDirect_begins data hflushed, fun _ => hflushed⟩
  · rw [if_neg hflush]
    dsimp only
    rw [ends_ite]
    exact ⟨fun _ => writeDirect_begins data h, fun _ => h⟩

/-- Writing pieces leaves the beginning of the file. -/
theorem writePieces_begins (pieces : List Bytes) (h : Begins contents writer) :
    Ends (forM pieces writeAll) writer (fun _ after => Begins contents after)
      (fun _ after => Begins contents after) :=
  @ends_forM _ _ _ pieces writeAll writer (fun _ writer => Begins contents writer) _ h
    fun piece _ _ hbegins => writeAll_begins piece hbegins

/-- Settling the file leaves its beginning. -/
theorem settleFile_begins (h : Begins contents writer) :
    Ends settleFile writer (fun _ after => Begins contents after)
      (fun _ after => Begins contents after) := by
  obtain ⟨buffer, held, outcomes⟩ := writer
  rw [settleFile, ends_onPart]
  cases outcomes with
  | nil => exact h
  | cons outcome outcomes => cases outcome <;> exact h

/-- A flush leaves the beginning of the file. -/
theorem flush_begins (h : Begins contents writer) :
    Ends flush writer (fun _ after => Begins contents after)
      (fun _ after => Begins contents after) := by
  rw [flush, ends_bind]
  exact (flushBuf_begins h).imp fun _ _ hflushed => settleFile_begins hflushed

end Growing

/-! ### A file that fails at once -/

/-- The next request to the file fails and its contents are these. -/
def Stuck (contents : Bytes) (writer : BufWriter) : Prop :=
  writer.file.Broken ∧ writer.file.contents = contents

section Broken

variable {writer : BufWriter} {contents : Bytes}

/-- A stuck writer leaves the file as it is when it writes its buffer out. -/
theorem flushBuf_stuck (h : Stuck contents writer) :
    Ends flushBuf writer (fun _ after => Stuck contents after)
      (fun _ after => after.file.contents = contents) := by
  by_cases hbuffer : writer.buffer = []
  · simp only [Ends, flushBuf, hbuffer, FileDevice.writeLoop]
    exact h
  · obtain ⟨error, rest, hloop⟩ := FileDevice.writeLoop_broken h.1 hbuffer
    simp only [Ends, flushBuf, hloop]
    exact h.2

/-- A stuck writer leaves the file as it is when it writes past its buffer. -/
theorem writeDirect_stuck {data : Bytes} (h : Stuck contents writer) :
    Ends (writeDirect data) writer (fun _ after => Stuck contents after)
      (fun _ after => after.file.contents = contents) := by
  by_cases hdata : data = []
  · simp only [Ends, writeDirect, hdata, FileDevice.writeLoop]
    exact h
  · obtain ⟨error, rest, hloop⟩ := FileDevice.writeLoop_broken h.1 hdata
    simp only [Ends, writeDirect, hloop]
    exact h.2

/-- A stuck writer leaves the file as it is when it writes. -/
theorem writeAll_stuck (data : Bytes) (h : Stuck contents writer) :
    Ends (writeAll data) writer (fun _ after => Stuck contents after)
      (fun _ after => after.file.contents = contents) := by
  unfold writeAll
  rw [ends_bind, ends_get, ends_ite]
  refine ⟨fun _ => h, fun _ => ?_⟩
  rw [ends_bind, ends_get]
  by_cases hflush : writer.spareCapacity < data.length
  · rw [if_pos hflush, ends_bind]
    refine (flushBuf_stuck h).imp fun _ flushed hflushed => ?_
    rw [ends_ite]
    exact ⟨fun _ => writeDirect_stuck hflushed, fun _ => hflushed⟩
  · rw [if_neg hflush]
    dsimp only
    rw [ends_ite]
    exact ⟨fun _ => writeDirect_stuck h, fun _ => h⟩

/-- A stuck writer leaves the file as it is when it writes pieces. -/
theorem writePieces_stuck (pieces : List Bytes) (h : Stuck contents writer) :
    Ends (forM pieces writeAll) writer (fun _ after => Stuck contents after)
      (fun _ after => after.file.contents = contents) :=
  @ends_forM _ _ _ pieces writeAll writer (fun _ writer => Stuck contents writer) _ h
    fun piece _ _ hstuck => writeAll_stuck piece hstuck

/-- A dropped writer leaves such a file as it was. -/
theorem drop_stuck (h : Stuck contents writer) : writer.drop.contents = contents := by
  have hflush := flushBuf_stuck h
  unfold Ends at hflush
  rw [drop]
  split at hflush
  next _ after hok => rw [hok]; exact hflush.2
  next _ after herror => rw [herror]; exact hflush

/-- Nothing leaves the buffer, and the flush fails. -/
theorem flush_stuck (h : Stuck contents writer) :
    Ends flush writer (fun _ _ => False) (fun _ after => after.file.contents = contents) := by
  rw [flush, ends_bind]
  refine (flushBuf_stuck h).imp fun _ flushed hflushed => ?_
  obtain ⟨buffer, file, outcomes⟩ := flushed
  obtain ⟨⟨outcome, hhead, error, rfl⟩, hcontents⟩ := hflushed
  rw [settleFile, ends_onPart]
  cases outcomes with
  | nil => cases hhead
  | cons first rest =>
      cases hhead
      exact hcontents

end Broken

/-- An empty buffer is dropped without a request to the file. -/
theorem drop_empty {writer : BufWriter} (h : writer.buffer = []) : writer.drop = writer.file := by
  simp [drop, flushBuf, h, FileDevice.writeLoop]

/-! ### Data that stays in the buffer -/

/-- Pieces that fit are only buffered. -/
theorem writePieces_buffered {failed : IoError → BufWriter → Prop} {pieces : List Bytes}
    {writer : BufWriter} (hfits : writer.buffer.length + pieces.flatten.length < capacity) :
    Ends (forM pieces writeAll) writer
      (fun _ after => after = { writer with buffer := writer.buffer ++ pieces.flatten })
      failed := by
  induction pieces generalizing writer with
  | nil =>
      obtain ⟨buffer, file⟩ := writer
      simp
  | cons piece pieces ih =>
      rw [List.flatten_cons, List.length_append] at hfits
      have hspare : piece.length < writer.spareCapacity := by
        unfold spareCapacity
        omega
      rw [List.forM_cons, ends_bind, writeAll, ends_bind, ends_get, if_pos hspare]
      have hrest := @ih { writer with buffer := writer.buffer ++ piece } (by
        rw [List.length_append]
        omega)
      rw [List.append_assoc] at hrest
      exact hrest

/-- A flush whose first request fails keeps the whole buffer. -/
theorem flush_failed {buffer contents : Bytes} {error : IoError} {outcomes : List IoOutcome}
    (hbuffer : buffer ≠ []) :
    flush ⟨buffer, ⟨contents, .failed error :: outcomes⟩⟩ =
      .error error ⟨buffer, ⟨contents, outcomes⟩⟩ := by
  cases buffer with
  | nil => exact absurd rfl hbuffer
  | cons byte buffer => rfl

end BufWriter

end Oasi
