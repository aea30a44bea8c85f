import Mathlib.Data.List.Basic

/-! # Self-delimiting codes

A code is self-delimiting when the word of a value can be cut off the front of any
string in one way only. Such codes compose by concatenation, and none of their words
is a proper prefix of another.
-/

namespace Oasi

variable {Value Symbol : Type} {good : Value → Prop} {encode : Value → List Symbol}

/-- The words of good values are recognised from the left. -/
def SelfDelimiting (good : Value → Prop) (encode : Value → List Symbol) : Prop :=
  ∀ ⦃first second : Value⦄ ⦃restFirst restSecond : List Symbol⦄, good first → good second →
    encode first ++ restFirst = encode second ++ restSecond →
      first = second ∧ restFirst = restSecond

/-- The values of a code whose words all have one length. -/
theorem selfDelimiting_of_length {size : Nat}
    (hsize : ∀ value, good value → (encode value).length = size)
    (hinjective : ∀ first second, good first → good second → encode first = encode second →
      first = second) :
    SelfDelimiting good encode := by
  intro first second restFirst restSecond hfirst hsecond h
  have hlength : (encode first).length = (encode second).length := by
    rw [hsize first hfirst, hsize second hsecond]
  obtain ⟨hwords, hrest⟩ := List.append_inj h hlength
  exact ⟨hinjective first second hfirst hsecond hwords, hrest⟩

namespace SelfDelimiting

/-- A word behind a self-delimiting account of its length. -/
theorem counted {length : Nat → List Symbol} {fits : Nat → Prop}
    (hlength : SelfDelimiting fits length)
    (hfits : ∀ value, good value → fits (encode value).length)
    (hinjective : ∀ first second, good first → good second → encode first = encode second →
      first = second) :
    SelfDelimiting good fun value => length (encode value).length ++ encode value := by
  intro first second restFirst restSecond hfirst hsecond h
  simp only [List.append_assoc] at h
  obtain ⟨hlengths, h⟩ := hlength (hfits first hfirst) (hfits second hsecond) h
  obtain ⟨hwords, hrest⟩ := List.append_inj h hlengths
  exact ⟨hinjective first second hfirst hsecond hwords, hrest⟩

/-- A value that may be missing, behind a symbol that says whether it is. -/
theorem tagged (hcode : SelfDelimiting good encode) {absent present : Symbol}
    (htags : absent ≠ present) :
    SelfDelimiting (fun value : Option Value => ∀ inner ∈ value, good inner) fun
      | none => [absent]
      | some value => present :: encode value := by
  intro first second restFirst restSecond hfirst hsecond h
  cases first with
  | none =>
      cases second with
      | none => exact ⟨rfl, (List.cons.inj h).2⟩
      | some second => exact absurd (List.cons.inj h).1 htags
  | some first =>
      cases second with
      | none => exact absurd (List.cons.inj h).1.symm htags
      | some second =>
          obtain ⟨hvalues, hrest⟩ := hcode (hfirst first rfl) (hsecond second rfl)
            (List.cons.inj h).2
          exact ⟨congrArg some hvalues, hrest⟩

/-- As many values as both sides agree on, one after the other. -/
theorem flatMap (hcode : SelfDelimiting good encode) {first second : List Value}
    {restFirst restSecond : List Symbol} (hfirst : ∀ value ∈ first, good value)
    (hsecond : ∀ value ∈ second, good value) (hlength : first.length = second.length)
    (h : first.flatMap encode ++ restFirst = second.flatMap encode ++ restSecond) :
    first = second ∧ restFirst = restSecond := by
  induction first generalizing second with
  | nil =>
      cases second with
      | nil => exact ⟨rfl, h⟩
      | cons value second => cases hlength
  | cons value first ih =>
      cases second with
      | nil => cases hlength
      | cons other second =>
          simp only [List.flatMap_cons, List.append_assoc] at h
          obtain ⟨hhead, htail⟩ := hcode (hfirst value List.mem_cons_self)
            (hsecond other List.mem_cons_self) h
          obtain ⟨hvalues, hrest⟩ := ih
            (fun value hvalue => hfirst value (List.mem_cons_of_mem _ hvalue))
            (fun value hvalue => hsecond value (List.mem_cons_of_mem _ hvalue))
            (Nat.succ.inj hlength) htail
          exact ⟨congrArg₂ List.cons hhead hvalues, hrest⟩

end SelfDelimiting

end Oasi
