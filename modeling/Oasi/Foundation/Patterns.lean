import Mathlib.Data.List.Basic

/-! # Search patterns

A fragment of the regular expressions: literals, classes of ranges, a fixed count behind
either, and the two anchors. What the closing anchor accepts as the rest of the text
depends on the dialect and is a parameter of the search.
-/

namespace Oasi

/-- A Unicode code point. A surrogate is one too. -/
abbrev CodePoint := Fin 0x110000

theorem toNat_lt_codePoints (char : Char) : char.toNat < 0x110000 := by
  have hvalid : char.toNat.isValidChar := char.valid
  unfold Nat.isValidChar at hvalid
  omega

def point (char : Char) : CodePoint := ⟨char.toNat, toNat_lt_codePoints char⟩

/-- The code points of a literal. -/
def points (text : String) : List CodePoint := text.toList.map point

theorem point_injective : Function.Injective point := by
  intro left right h
  have hvalue : (point left).val = (point right).val := by rw [h]
  exact Char.ext (UInt32.toNat_inj.mp hvalue)

@[simp] theorem points_inj {left right : String} : points left = points right ↔ left = right := by
  rw [points, points, point_injective.list_map.eq_iff, String.toList_inj]

@[simp] theorem points_beq (left right : String) :
    (points left == points right) = (left == right) := by
  rw [Bool.eq_iff_iff, beq_iff_eq, beq_iff_eq, points_inj]

namespace Pattern

/-- A range holds its two ends. -/
abbrev Ranges := List (CodePoint × CodePoint)

def Ranges.contains (ranges : Ranges) (char : CodePoint) : Bool :=
  ranges.any fun range => decide (range.1.val ≤ char.val) && decide (char.val ≤ range.2.val)

inductive Item where
  /-- `^` -/
  | start
  /-- `$` -/
  | finish
  /-- One code point of a class, or a literal. -/
  | one (ranges : Ranges)
  deriving DecidableEq

/-! ## Parsing -/

/-- The characters that are no literals. -/
def special : List CodePoint := points "\\.^$*+?\x7b\x7d[]|()"

/-- Inside a class these characters are outside the fragment. -/
def classSpecial : List CodePoint := points "\\[^-"

/-- The ranges up to the closing bracket. -/
def parseRanges : Nat → List CodePoint → Option (Ranges × List CodePoint)
  | 0, _ => none
  | _ + 1, [] => none
  | fuel + 1, first :: rest =>
      if first = point ']' then some ([], rest)
      else if first ∈ classSpecial then none
      else
        match rest with
        | dash :: last :: behind =>
            if dash = point '-' then
              if last = point ']' ∨ last ∈ classSpecial ∨ last.val < first.val then none
              else (parseRanges fuel behind).map fun found => ((first, last) :: found.1, found.2)
            else (parseRanges fuel rest).map fun found => ((first, first) :: found.1, found.2)
        | _ => (parseRanges fuel rest).map fun found => ((first, first) :: found.1, found.2)

/-- A literal, or a class that is not empty. -/
def parseClass (first : CodePoint) (rest : List CodePoint) : Option (Ranges × List CodePoint) :=
  if first = point '[' then
    (parseRanges (rest.length + 1) rest).filter fun found => !found.1.isEmpty
  else if first ∈ special then none
  else some ([(first, first)], rest)

def isDigit (char : CodePoint) : Bool := Ranges.contains [(point '0', point '9')] char

/-- `\x7bn\x7d` behind a literal or a class; without it the count is one. -/
def parseCount (text : List CodePoint) : Option (Nat × List CodePoint) :=
  if text.head? = some (point '\x7b') then
    let digits := (text.drop 1).takeWhile isDigit
    let behind := text.drop (1 + digits.length)
    if digits = [] ∨ behind.head? ≠ some (point '\x7d') then none
    else
      some (digits.foldl (fun count digit => 10 * count + (digit.val - (point '0').val)) 0,
        behind.drop 1)
  else some (1, text)

def parseItems : Nat → List CodePoint → Option (List Item)
  | 0, _ => none
  | _ + 1, [] => some []
  | fuel + 1, first :: rest =>
      if first = point '^' then (parseItems fuel rest).map (.start :: ·)
      else if first = point '$' then (parseItems fuel rest).map (.finish :: ·)
      else do
        let (ranges, behind) ← parseClass first rest
        let (count, behind) ← parseCount behind
        let items ← parseItems fuel behind
        return List.replicate count (.one ranges) ++ items

/-- The items of a pattern; `none` outside the fragment. -/
def parse (pattern : List CodePoint) : Option (List Item) :=
  parseItems (pattern.length + 1) pattern

/-! ## Matching -/

/-- Whether the text at hand starts with a match. -/
def matchesHere (atEnd : List CodePoint → Bool) : Bool → List Item → List CodePoint → Bool
  | _, [], _ => true
  | atStart, .start :: items, text => atStart && matchesHere atEnd atStart items text
  | atStart, .finish :: items, text => atEnd text && matchesHere atEnd atStart items text
  | _, .one _ :: _, [] => false
  | _, .one ranges :: items, char :: text =>
      ranges.contains char && matchesHere atEnd false items text

/-- Whether there is a match at some position. -/
def searchFrom (atEnd : List CodePoint → Bool) (items : List Item) :
    Bool → List CodePoint → Bool
  | atStart, [] => matchesHere atEnd atStart items []
  | atStart, char :: text =>
      matchesHere atEnd atStart items (char :: text) || searchFrom atEnd items false text

def search (atEnd : List CodePoint → Bool) (items : List Item) (text : List CodePoint) : Bool :=
  searchFrom atEnd items true text

/-- A pattern with an anchor on both sides. -/
def anchored (classes : List Ranges) : List Item :=
  .start :: (classes.map .one ++ [.finish])

variable {atEnd : List CodePoint → Bool} {classes : List Ranges} {text : List CodePoint}

theorem matchesHere_classes {atStart : Bool} :
    matchesHere atEnd atStart (classes.map .one ++ [.finish]) text = true ↔
      ∃ front rest, text = front ++ rest ∧ atEnd rest = true ∧
        List.Forall₂ (fun char ranges => Ranges.contains ranges char = true) front classes := by
  induction classes generalizing text atStart with
  | nil =>
      rw [List.map_nil, List.nil_append, matchesHere, matchesHere, Bool.and_true]
      constructor
      · exact fun hend => ⟨[], text, rfl, hend, .nil⟩
      · rintro ⟨_, rest, rfl, hend, hfront⟩
        cases hfront
        exact hend
  | cons ranges classes ih =>
      cases text with
      | nil =>
          rw [List.map_cons, List.cons_append, matchesHere]
          constructor
          · intro h
            cases h
          · rintro ⟨_, rest, htext, _, hfront⟩
            cases hfront
            cases htext
      | cons char text =>
          rw [List.map_cons, List.cons_append, matchesHere, Bool.and_eq_true, ih]
          constructor
          · rintro ⟨hchar, front, rest, rfl, hend, hfront⟩
            exact ⟨char :: front, rest, rfl, hend, .cons hchar hfront⟩
          · rintro ⟨_, rest, htext, hend, hfront⟩
            cases hfront with
            | cons hchar hfront =>
                obtain ⟨rfl, rfl⟩ := List.cons.inj htext
                exact ⟨hchar, _, rest, rfl, hend, hfront⟩

theorem searchFrom_start_false {items : List Item} :
    searchFrom atEnd (.start :: items) false text = false := by
  induction text with
  | nil => rfl
  | cons char text ih => rw [searchFrom, ih, matchesHere, Bool.false_and, Bool.false_or]

/-- An anchored pattern is found where its classes take the text from the first code point
on, and the closing anchor accepts the rest. -/
theorem search_anchored_iff :
    search atEnd (anchored classes) text = true ↔
      ∃ front rest, text = front ++ rest ∧ atEnd rest = true ∧
        List.Forall₂ (fun char ranges => Ranges.contains ranges char = true) front classes := by
  have hsearch : search atEnd (anchored classes) text =
      matchesHere atEnd true (classes.map .one ++ [.finish]) text := by
    rw [search, anchored]
    cases text with
    | nil => rw [searchFrom, matchesHere, Bool.true_and]
    | cons char text =>
        rw [searchFrom, searchFrom_start_false, Bool.or_false, matchesHere, Bool.true_and]
  rw [hsearch, matchesHere_classes]

/-! ## The closing anchor -/

/-- Only the end of the text is accepted. -/
def wholeText (rest : List CodePoint) : Bool := rest.isEmpty

/-- One final line feed is accepted too. -/
def beforeFinalLineFeed (rest : List CodePoint) : Bool := rest.isEmpty || rest == [point '\n']

/-- The text without one final line feed. -/
def dropFinalLineFeed (text : List CodePoint) : List CodePoint :=
  if text.getLast? = some (point '\n') then text.dropLast else text

theorem eq_or_eq_dropFinalLineFeed (text : List CodePoint) :
    text = dropFinalLineFeed text ∨ text = dropFinalLineFeed text ++ [point '\n'] := by
  unfold dropFinalLineFeed
  split
  next hlast => exact .inr (List.dropLast_append_getLast? _ hlast).symm
  next => exact .inl rfl

@[simp] theorem dropFinalLineFeed_append (text : List CodePoint) :
    dropFinalLineFeed (text ++ [point '\n']) = text := by
  simp [dropFinalLineFeed]

/-- None of the classes holds the line feed. -/
def LineFeedFree (classes : List Ranges) : Prop :=
  ∀ ranges ∈ classes, Ranges.contains ranges (point '\n') = false

theorem not_mem_of_forall₂ {front : List CodePoint} (hfree : LineFeedFree classes)
    (hfront : List.Forall₂ (fun char ranges => Ranges.contains ranges char = true) front classes) :
    point '\n' ∉ front := by
  induction hfront with
  | nil => exact List.not_mem_nil
  | @cons char ranges front classes hchar _ ih =>
      rw [List.mem_cons, not_or]
      constructor
      · rintro rfl
        rw [hfree ranges List.mem_cons_self] at hchar
        cases hchar
      · exact ih fun ranges hranges => hfree ranges (List.mem_cons_of_mem _ hranges)

theorem search_wholeText_iff :
    search wholeText (anchored classes) text = true ↔
      List.Forall₂ (fun char ranges => Ranges.contains ranges char = true) text classes := by
  rw [search_anchored_iff]
  constructor
  · rintro ⟨front, rest, rfl, hend, hfront⟩
    obtain rfl := List.isEmpty_iff.mp hend
    rwa [List.append_nil]
  · intro htext
    exact ⟨text, [], (List.append_nil _).symm, rfl, htext⟩

/-- The one dialect accepts what the other accepts after a final line feed is dropped. -/
theorem search_beforeFinalLineFeed_iff (hfree : LineFeedFree classes) :
    search beforeFinalLineFeed (anchored classes) text = true ↔
      search wholeText (anchored classes) (dropFinalLineFeed text) = true := by
  rw [search_wholeText_iff, search_anchored_iff]
  constructor
  · rintro ⟨front, rest, rfl, hend, hfront⟩
    rw [beforeFinalLineFeed, Bool.or_eq_true, List.isEmpty_iff, beq_iff_eq] at hend
    rcases hend with rfl | rfl
    · have hlast : front.getLast? ≠ some (point '\n') := fun hlast =>
        not_mem_of_forall₂ hfree hfront (List.mem_of_getLast? hlast)
      rwa [List.append_nil, dropFinalLineFeed, if_neg hlast]
    · rwa [dropFinalLineFeed_append]
  · intro hfront
    rcases eq_or_eq_dropFinalLineFeed text with htext | htext
    · exact ⟨_, [], by rwa [List.append_nil], rfl, hfront⟩
    · exact ⟨_, [point '\n'], htext, rfl, hfront⟩

/-- A text with a final line feed is not accepted as a whole. -/
theorem dropFinalLineFeed_eq_self (hfree : LineFeedFree classes)
    (h : search wholeText (anchored classes) text = true) : dropFinalLineFeed text = text := by
  have hlast : text.getLast? ≠ some (point '\n') := fun hlast =>
    not_mem_of_forall₂ hfree (search_wholeText_iff.mp h) (List.mem_of_getLast? hlast)
  rw [dropFinalLineFeed, if_neg hlast]

end Pattern

end Oasi
