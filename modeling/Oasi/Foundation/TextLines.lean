import Mathlib.Data.List.Basic

/-! # Lines of a text with universal line boundaries

Ten characters end a line, and a carriage return with a line feed behind it ends
one line. Splitting forgets which boundary stood where, so a text is determined by
its lines only where all boundaries are known to be the same.
-/

namespace Oasi

/-- LF, VT, FF, CR, FS, GS, RS, NEL, LS and PS. -/
def isLineBoundary (char : Char) : Bool :=
  char ∈ ['\n', '\x0b', '\x0c', '\r', '\x1c', '\x1d', '\x1e', '\u0085', '\u2028', '\u2029']

/-- The lines of a text without their ends; the last line may lack an end. -/
def splitlines : List Char → List (List Char)
  | [] => []
  | '\r' :: '\n' :: rest => [] :: splitlines rest
  | char :: rest =>
      if isLineBoundary char then [] :: splitlines rest
      else
        match splitlines rest with
        | [] => [[char]]
        | line :: lines => (char :: line) :: lines

/-- Lines that all end in a line feed. -/
def terminateLines (lines : List (List Char)) : List Char :=
  lines.flatMap fun line => line ++ ['\n']

/-- A text in which no boundary but the line feed occurs. -/
def LineFeedOnly (text : List Char) : Prop :=
  ∀ char ∈ text, isLineBoundary char = true → char = '\n'

theorem splitlines_boundary {char : Char} (hboundary : isLineBoundary char = true)
    (hreturn : char ≠ '\r') (rest : List Char) :
    splitlines (char :: rest) = [] :: splitlines rest := by
  rw [splitlines, if_pos hboundary]
  rintro _ rfl
  exact absurd rfl hreturn

theorem splitlines_inside {char : Char} (hinside : isLineBoundary char = false)
    (rest : List Char) :
    splitlines (char :: rest) =
      match splitlines rest with
      | [] => [[char]]
      | line :: lines => (char :: line) :: lines := by
  rw [splitlines, if_neg (by rw [hinside]; decide)]
  rintro _ rfl
  exact absurd hinside (by decide)

/-- No line contains a boundary. -/
theorem isLineBoundary_of_mem_splitlines {text line : List Char} (hline : line ∈ splitlines text)
    {char : Char} (hchar : char ∈ line) : isLineBoundary char = false := by
  fun_induction splitlines text generalizing line with
  | case1 => exact absurd hline List.not_mem_nil
  | case2 rest ih =>
      rcases List.mem_cons.mp hline with rfl | hline
      · exact absurd hchar List.not_mem_nil
      · exact ih hline hchar
  | case3 _ _ _ _ ih =>
      rcases List.mem_cons.mp hline with rfl | hline
      · exact absurd hchar List.not_mem_nil
      · exact ih hline hchar
  | case4 first rest _ hinside _ ih =>
      rw [List.mem_singleton.mp hline, List.mem_singleton] at hchar
      rw [hchar]
      exact Bool.eq_false_iff.mpr hinside
  | case5 first rest _ hinside head lines hlines ih =>
      rw [hlines] at ih
      rcases List.mem_cons.mp hline with rfl | hline
      · rcases List.mem_cons.mp hchar with rfl | hchar
        · exact Bool.eq_false_iff.mpr hinside
        · exact ih List.mem_cons_self hchar
      · exact ih (List.mem_cons_of_mem _ hline) hchar

/-- Lines without a boundary are split off where they were joined. -/
theorem splitlines_terminateLines {lines : List (List Char)}
    (h : ∀ line ∈ lines, ∀ char ∈ line, isLineBoundary char = false) :
    splitlines (terminateLines lines) = lines := by
  induction lines with
  | nil => rfl
  | cons line lines ih =>
      have hrest := ih fun other hother => h other (List.mem_cons_of_mem _ hother)
      have hline := h line List.mem_cons_self
      have hsplit : ∀ chars : List Char, (∀ char ∈ chars, isLineBoundary char = false) →
          splitlines (chars ++ '\n' :: terminateLines lines) = chars :: lines := by
        intro chars
        induction chars with
        | nil =>
            intro _
            rw [List.nil_append, splitlines_boundary (by decide) (by decide), hrest]
        | cons char chars ihChars =>
            intro hchars
            rw [List.cons_append, splitlines_inside (hchars char List.mem_cons_self),
              ihChars fun other hother => hchars other (List.mem_cons_of_mem _ hother)]
      rw [terminateLines, List.flatMap_cons, List.append_assoc]
      exact hsplit line hline

/-- A text whose only boundaries are line feeds, one of them at its end, is its
lines joined again. -/
theorem terminateLines_splitlines {text : List Char} (honly : LineFeedOnly text)
    (hend : text = [] ∨ text.getLast? = some '\n') : terminateLines (splitlines text) = text := by
  induction text with
  | nil => rfl
  | cons char rest ih =>
      have hrestOnly : LineFeedOnly rest :=
        fun other hother => honly other (List.mem_cons_of_mem _ hother)
      cases hboundary : isLineBoundary char with
      | true =>
          obtain rfl := honly char List.mem_cons_self hboundary
          have hrestEnd : rest = [] ∨ rest.getLast? = some '\n' := by
            cases rest with
            | nil => exact .inl rfl
            | cons other rest => exact .inr (hend.resolve_left (by simp))
          rw [splitlines_boundary hboundary (by decide), terminateLines, List.flatMap_cons]
          exact congrArg _ (ih hrestOnly hrestEnd)
      | false =>
          have hlast := hend.resolve_left (by simp)
          cases rest with
          | nil =>
              rw [List.getLast?_singleton, Option.some.injEq] at hlast
              rw [hlast] at hboundary
              exact absurd hboundary (by decide)
          | cons other rest =>
              have hrest := ih hrestOnly (.inr hlast)
              rw [splitlines_inside hboundary]
              cases hlines : splitlines (other :: rest) with
              | nil =>
                  rw [hlines] at hrest
                  cases hrest
              | cons line lines =>
                  rw [hlines] at hrest
                  exact congrArg (char :: ·) hrest

/-- Joined lines contain line feeds only. -/
theorem lineFeedOnly_terminateLines {lines : List (List Char)}
    (h : ∀ line ∈ lines, ∀ char ∈ line, isLineBoundary char = false) :
    LineFeedOnly (terminateLines lines) := by
  intro char hchar hboundary
  obtain ⟨line, hline, hmem⟩ := List.mem_flatMap.mp hchar
  rcases List.mem_append.mp hmem with hmem | hmem
  · rw [h line hline char hmem] at hboundary
    cases hboundary
  · exact List.mem_singleton.mp hmem

theorem splitlines_ne_nil {text : List Char} (h : text ≠ []) : splitlines text ≠ [] := by
  fun_induction splitlines text with
  | case1 => exact absurd rfl h
  | case2 => simp
  | case3 => simp
  | case4 => simp
  | case5 => simp

theorem getLast?_terminateLines {lines : List (List Char)} (h : lines ≠ []) :
    (terminateLines lines).getLast? = some '\n' := by
  rcases List.eq_nil_or_concat lines with rfl | ⟨front, last, rfl⟩
  · exact absurd rfl h
  · rw [terminateLines, List.concat_eq_append, List.flatMap_append, List.flatMap_singleton,
      ← List.append_assoc, List.getLast?_concat]

end Oasi
