import Oasi.Foundation.Numerals

/-! # Lines made of words

A line of words separated by single spaces determines its words, as long as no
word contains a space. Numerals contain none.
-/

namespace Oasi

/-- `words.join(" ")`. -/
def joinWords (words : List String) : String := " ".intercalate words

/-- The word contains no space. -/
def Spaceless (word : String) : Prop := ' ' ∉ word.toList

instance (word : String) : Decidable (Spaceless word) :=
  inferInstanceAs (Decidable (' ' ∉ word.toList))

theorem toList_joinWords (words : List String) :
    (joinWords words).toList = [' '].intercalate (words.map String.toList) :=
  String.toList_intercalate

/-- Different lists of words make different lines. -/
theorem joinWords_injective {first second : List String} (hfirst : ∀ word ∈ first, Spaceless word)
    (hsecond : ∀ word ∈ second, Spaceless word) (hfirstNonempty : first ≠ [])
    (hsecondNonempty : second ≠ []) (h : joinWords first = joinWords second) : first = second := by
  have hsplit : ∀ words : List String, (∀ word ∈ words, Spaceless word) → words ≠ [] →
      (joinWords words).toList.splitOn ' ' = words.map String.toList := by
    intro words hwords hnonempty
    rw [toList_joinWords]
    refine List.splitOn_intercalate ' ' (fun chars hchars => ?_) (by simpa using hnonempty)
    obtain ⟨word, hword, rfl⟩ := List.mem_map.mp hchars
    exact hwords word hword
  have hmap : first.map String.toList = second.map String.toList := by
    rw [← hsplit first hfirst hfirstNonempty, ← hsplit second hsecond hsecondNonempty, h]
  exact List.map_injective_iff.mpr (fun _ _ => String.toList_inj.mp) hmap

theorem spaceless_decimal (value : UInt64) : Spaceless (decimal value) := by
  intro hspace
  rw [decimal, Nat.toList_repr] at hspace
  have hdigit := mem_toDigits_ten hspace
  have hcode : ' '.toNat = 32 := rfl
  omega

theorem spaceless_paddedHex (width value : Nat) : Spaceless (paddedHex width value) := by
  intro hspace
  rw [paddedHex, String.toList_ofList] at hspace
  obtain ⟨digit, hdigit, heq⟩ := mem_hexDigits hspace
  revert heq
  revert digit
  decide

theorem decimal_injective {first second : UInt64} (h : decimal first = decimal second) :
    first = second := by
  rw [← UInt64.toNat_inj, ← decimalValue_decimal first, h, decimalValue_decimal]

/-! ## The line ending -/

/-- `text.trim_end_matches('\n')`. -/
def trimEndNewlines (text : String) : String :=
  String.ofList (text.toList.reverse.dropWhile (· == '\n')).reverse

/-- Only the line ending is removed from a line that does not end in one. -/
theorem trimEndNewlines_line {line : String} {char : Char}
    (hlast : line.toList.getLast? = some char) (hchar : char ≠ '\n') :
    trimEndNewlines (line ++ "\n") = line := by
  have hreverse : line.toList.reverse.head? = some char := by
    rw [List.head?_reverse, hlast]
  cases hchars : line.toList.reverse with
  | nil => simp [hchars] at hreverse
  | cons head rest =>
      rw [hchars, List.head?_cons, Option.some.injEq] at hreverse
      have hline : line.toList = (head :: rest).reverse := by rw [← hchars, List.reverse_reverse]
      have hhead : (head == '\n') = false := by simpa [hreverse] using hchar
      have hnewline : "\n".toList = ['\n'] := rfl
      rw [trimEndNewlines, String.toList_append, List.reverse_append, hchars, hnewline,
        List.reverse_singleton, List.singleton_append, List.dropWhile_cons_of_pos (by rfl),
        List.dropWhile_cons_of_neg (by simp [hhead]), ← hline, String.ofList_toList]

end Oasi
