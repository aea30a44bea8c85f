import Oasi.Foundation.Bytes

/-! # LF-terminated lines

A buffered reader consumes a byte stream one delimited chunk at a time. A text
file is a list of lines, none of which contains the delimiter, each followed by
one delimiter; reading such a file returns the lines in order, and a proper
prefix of it ends in the middle of a line or at a line boundary.
-/

namespace Oasi

/-- The LF byte. -/
abbrev lf : UInt8 := 10

/-- One `read_until`: everything up to and including the first delimiter, or
the whole stream when the delimiter does not occur, and what is left. -/
def readUntil (delimiter : UInt8) : Bytes → Bytes × Bytes
  | [] => ([], [])
  | byte :: rest =>
      if byte = delimiter then ([byte], rest)
      else (byte :: (readUntil delimiter rest).1, (readUntil delimiter rest).2)

theorem readUntil_append_delimiter {delimiter : UInt8} {line : Bytes} (rest : Bytes)
    (hline : delimiter ∉ line) :
    readUntil delimiter (line ++ delimiter :: rest) = (line ++ [delimiter], rest) := by
  induction line with
  | nil => simp [readUntil]
  | cons byte line ih =>
      simp only [List.mem_cons, not_or] at hline
      simp [readUntil, Ne.symm hline.1, ih hline.2]

theorem readUntil_fst_append {delimiter : UInt8} {front : Bytes} (rest : Bytes)
    (hfront : delimiter ∉ front) :
    (readUntil delimiter (front ++ rest)).1 = front ++ (readUntil delimiter rest).1 := by
  induction front with
  | nil => rfl
  | cons byte front ih =>
      simp only [List.mem_cons, not_or] at hfront
      simp [readUntil, Ne.symm hfront.1, ih hfront.2]

/-- A stream either has no delimiter or starts with one delimited line. -/
theorem exists_line_of_mem {delimiter : UInt8} {bytes : Bytes} (h : delimiter ∈ bytes) :
    ∃ line rest, delimiter ∉ line ∧ bytes = line ++ delimiter :: rest := by
  obtain ⟨line, rest, hsplit, hfirst⟩ := List.eq_append_cons_of_mem h
  exact ⟨line, rest, hfirst, hsplit⟩

theorem readUntil_append (delimiter : UInt8) (bytes : Bytes) :
    (readUntil delimiter bytes).1 ++ (readUntil delimiter bytes).2 = bytes := by
  induction bytes with
  | nil => rfl
  | cons byte rest ih =>
      by_cases h : byte = delimiter
      · simp [readUntil, h]
      · simp [readUntil, h, ih]

theorem readUntil_fst_ne_nil (delimiter : UInt8) {bytes : Bytes} (h : bytes ≠ []) :
    (readUntil delimiter bytes).1 ≠ [] := by
  cases bytes with
  | nil => exact absurd rfl h
  | cons byte rest =>
      by_cases hbyte : byte = delimiter
      · simp [readUntil, hbyte]
      · simp [readUntil, hbyte]

theorem length_readUntil_snd_lt (delimiter : UInt8) {bytes : Bytes} (h : bytes ≠ []) :
    (readUntil delimiter bytes).2.length < bytes.length := by
  have hlength := congrArg List.length (readUntil_append delimiter bytes)
  have hpos := List.length_pos_iff.mpr (readUntil_fst_ne_nil delimiter h)
  rw [List.length_append] at hlength
  omega

/-! ## Files made of lines -/

/-- The file that holds the given lines, each followed by one LF. -/
def joinLines (lines : List Bytes) : Bytes := lines.flatMap (· ++ [lf])

@[simp] theorem joinLines_nil : joinLines [] = [] := rfl

theorem joinLines_cons (line : Bytes) (lines : List Bytes) :
    joinLines (line :: lines) = line ++ lf :: joinLines lines := by
  simp [joinLines]

@[simp] theorem joinLines_append (left right : List Bytes) :
    joinLines (left ++ right) = joinLines left ++ joinLines right := by
  simp [joinLines]

theorem joinLines_eq_nil {lines : List Bytes} : joinLines lines = [] ↔ lines = [] := by
  cases lines <;> simp [joinLines_cons]

theorem count_joinLines {lines : List Bytes} (h : ∀ line ∈ lines, lf ∉ line) :
    (joinLines lines).count lf = lines.length := by
  induction lines with
  | nil => rfl
  | cons line lines ih =>
      have hline : line.count lf = 0 := List.count_eq_zero.mpr (h line List.mem_cons_self)
      have hrest := ih fun other hother => h other (List.mem_cons_of_mem _ hother)
      rw [joinLines_cons, List.count_append, List.count_cons_self, hline, hrest,
        List.length_cons, Nat.zero_add]

theorem line_cons_inj {first second : Bytes} {restFirst restSecond : Bytes}
    (hfirst : lf ∉ first) (hsecond : lf ∉ second)
    (h : first ++ lf :: restFirst = second ++ lf :: restSecond) :
    first = second ∧ restFirst = restSecond := by
  have hread := congrArg (readUntil lf) h
  rw [readUntil_append_delimiter _ hfirst, readUntil_append_delimiter _ hsecond,
    Prod.mk.injEq] at hread
  exact ⟨List.append_cancel_right hread.1, hread.2⟩

/-- Lines without an LF are determined by their file. -/
theorem joinLines_injective {left right : List Bytes} (hleft : ∀ line ∈ left, lf ∉ line)
    (hright : ∀ line ∈ right, lf ∉ line) (h : joinLines left = joinLines right) :
    left = right := by
  induction left generalizing right with
  | nil => exact (joinLines_eq_nil.mp h.symm).symm
  | cons line left ih =>
      cases right with
      | nil => simp [joinLines_cons] at h
      | cons other right =>
          rw [joinLines_cons, joinLines_cons] at h
          obtain ⟨hline, hrest⟩ := line_cons_inj (hleft line List.mem_cons_self)
            (hright other List.mem_cons_self) h
          rw [hline, ih (fun x hx => hleft x (List.mem_cons_of_mem _ hx))
            (fun x hx => hright x (List.mem_cons_of_mem _ hx)) hrest]

/-- A byte prefix of a file is a file of its first lines followed by a piece of
the next line without its LF. -/
theorem prefix_joinLines {lines : List Bytes} {bytes : Bytes}
    (hlines : ∀ line ∈ lines, lf ∉ line) (h : bytes <+: joinLines lines) :
    ∃ count fragment, count ≤ lines.length ∧ lf ∉ fragment ∧
      bytes = joinLines (lines.take count) ++ fragment ∧
      (count = lines.length → fragment = []) := by
  induction lines generalizing bytes with
  | nil => exact ⟨0, [], by simp, by simp, by simpa using h, fun _ => rfl⟩
  | cons line lines ih =>
      have hline := hlines line List.mem_cons_self
      obtain ⟨rest, hrest⟩ := h
      rw [joinLines_cons] at hrest
      rcases List.append_eq_append_iff.mp hrest with ⟨middle, hbytes, _⟩ | ⟨middle, hbytes, htail⟩
      · refine ⟨0, bytes, by simp, ?_, by simp, by simp⟩
        intro hmem
        exact hline (hbytes ▸ List.mem_append_left _ hmem)
      · cases middle with
        | nil =>
            refine ⟨0, bytes, by simp, ?_, by simp, by simp⟩
            rw [hbytes, List.append_nil]
            exact hline
        | cons byte middle =>
            rw [List.cons_append, List.cons.injEq] at htail
            obtain ⟨hbyte, htail⟩ := htail
            obtain ⟨count, fragment, hcount, hfragment, heq, hlast⟩ :=
              ih (fun x hx => hlines x (List.mem_cons_of_mem _ hx)) ⟨rest, htail.symm⟩
            refine ⟨count + 1, fragment, by simpa using hcount, hfragment, ?_, ?_⟩
            · rw [hbytes, ← hbyte, heq, List.take_succ_cons, joinLines_cons]
              simp
            · simpa using hlast

end Oasi
