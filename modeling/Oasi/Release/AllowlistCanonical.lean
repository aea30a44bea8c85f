import Oasi.Release.Allowlist

/-! # Canonical allowlists

A line is accepted only in one spelling, and the order of the lines is fixed. What the
parser does not fix is the character between two lines: the check of the text rules out
the carriage return only, and splitting knows eight more boundaries. An accepted file is
the canonical rendering of its mapping exactly when none of them occurs in it.
-/

namespace Oasi

namespace Release

variable {unicode : UnicodeData}

theorem matchLine_eq {line sha256 sizeText name : Text}
    (h : matchLine line = some (sha256, sizeText, name)) :
    isCanonicalDecimal sizeText = true ∧
      line = sha256 ++ ' ' :: ' ' :: (sizeText ++ ' ' :: ' ' :: name) := by
  unfold matchLine at h
  dsimp only at h
  split at h
  next hshape =>
    obtain ⟨rfl, hparts⟩ := Prod.mk.inj (Option.some.inj h)
    obtain ⟨rfl, rfl⟩ := Prod.mk.inj hparts
    obtain ⟨_, _, hfirst, hdecimal, hsecond, _⟩ := hshape
    refine ⟨hdecimal, ?_⟩
    have hsize : line.drop 66 = (line.drop 66).takeWhile Char.isDigit ++
        line.drop (66 + ((line.drop 66).takeWhile Char.isDigit).length) := by
      rw [← List.drop_drop]
      exact (List.prefix_iff_eq_append.mp (List.takeWhile_prefix _)).symm
    have hbehind := List.take_append_drop 2
      (line.drop (66 + ((line.drop 66).takeWhile Char.isDigit).length))
    have hseparator := List.take_append_drop 2 (line.drop 64)
    rw [hsecond] at hbehind
    rw [hfirst, List.drop_drop, hsize, ← hbehind] at hseparator
    conv_lhs => rw [← List.take_append_drop 64 line, ← hseparator]
    rfl
  next => cases h

/-- A matched line is the rendering of the entry that is read from it. -/
theorem renderLine_of_match {line sha256 sizeText name : Text} {size : Nat}
    (hmatch : matchLine line = some (sha256, sizeText, name))
    (hsize : intOfDigits sizeText = .ok size) : renderLine (name, ⟨sha256, size⟩) = line := by
  obtain ⟨hdecimal, rfl⟩ := matchLine_eq hmatch
  have hdigits : Nat.toDigits 10 size = sizeText := by
    unfold intOfDigits at hsize
    split at hsize
    next => cases hsize
    next =>
      cases hsize
      simp only [isCanonicalDecimal, Bool.or_eq_true, beq_iff_eq, Bool.and_eq_true,
        List.all_eq_true] at hdecimal
      apply toDigits_ofDigitChars
      · rcases hdecimal with rfl | hdecimal
        · simp
        · exact hdecimal.1
      · rcases hdecimal with rfl | hdecimal
        · simp
        · rintro rfl
          cases hdecimal.2
      · intro hzero
        refine hdecimal.resolve_right fun hdecimal => ?_
        rw [hzero] at hdecimal
        exact absurd hdecimal.2 (by decide)
  rw [renderLine, hdigits]

theorem parseLines_eq_ok {expected result : Mapping} {lineNumber : Nat} {lines : List Text}
    (h : parseLines unicode expected lineNumber lines = .ok result) :
    ∃ entries, result = expected ++ entries ∧ lines = entries.map renderLine ∧
      ((expected.map Prod.fst).Nodup → (result.map Prod.fst).Nodup) := by
  induction lines generalizing expected lineNumber with
  | nil =>
      cases h
      exact ⟨[], (List.append_nil _).symm, rfl, id⟩
  | cons line lines ih =>
      rw [parseLines] at h
      split at h
      next => cases h
      next sha256 sizeText name hmatch =>
        obtain ⟨_, _, h⟩ := bind_eq_ok.mp h
        obtain ⟨_, hfresh, h⟩ := bind_eq_ok.mp h
        obtain ⟨size, hsize, h⟩ := bind_eq_ok.mp h
        obtain ⟨entries, rfl, rfl, hnodup⟩ := ih h
        refine ⟨(name, ⟨sha256, size⟩) :: entries, ?_, ?_, ?_⟩
        · rw [List.append_assoc, List.singleton_append]
        · rw [List.map_cons, renderLine_of_match hmatch hsize]
        · intro hexpected
          apply hnodup
          rw [List.map_append, List.map_singleton, ← List.concat_eq_append]
          exact hexpected.concat (failIf_eq_ok.mp hfresh)

/-- An accepted mapping is in the order of its names, and they are distinct. -/
structure Ordinal (mapping : Mapping) : Prop where
  nodup : (mapping.map Prod.fst).Nodup
  ordered : mapping.Pairwise fun left right => left.1 ≤ right.1

theorem Ordinal.ordered_eq {mapping : Mapping} (h : Ordinal mapping) :
    Release.ordered mapping = mapping := h.ordered.insertionSort_eq

/-- Two ordinal mappings with the same entries list them alike. -/
theorem Ordinal.eq_of_perm {first second : Mapping} (hfirst : Ordinal first)
    (hsecond : Ordinal second) (h : first.Perm second) : first = second := by
  refine h.eq_of_pairwise ?_ hfirst.ordered hsecond.ordered
  intro left right hleft hright hle hge
  have hkey : left.1 = right.1 := le_antisymm hle hge
  exact List.inj_on_of_nodup_map hfirst.nodup hleft (h.mem_iff.mpr hright) hkey

theorem parseText_eq_ok {text : Text} {mapping : Mapping}
    (h : parseText unicode text = .ok mapping) :
    text.getLast? = some '\n' ∧ splitlines text = mapping.map renderLine ∧ Ordinal mapping := by
  unfold parseText at h
  obtain ⟨_, htext, h⟩ := bind_eq_ok.mp h
  obtain ⟨expected, hlines, h⟩ := bind_eq_ok.mp h
  obtain ⟨_, hsorted, h⟩ := bind_eq_ok.mp h
  obtain ⟨_, _, h⟩ := bind_eq_ok.mp h
  obtain rfl := Except.ok.inj h
  obtain ⟨entries, hexpected, hentries, hnodup⟩ := parseLines_eq_ok hlines
  obtain rfl : expected = entries := hexpected
  rw [failIf_eq_ok, not_or, not_or] at htext
  rw [failIf_eq_ok, Decidable.not_not] at hsorted
  refine ⟨Decidable.not_not.mp htext.2.1, hentries, hnodup List.nodup_nil, ?_⟩
  have hpairwise : (expected.map Prod.fst).Pairwise (· ≤ ·) := by
    rw [hsorted]
    exact List.pairwise_insertionSort _ _
  exact List.pairwise_map.mp hpairwise

/-- What an accepted allowlist says of its names. -/
structure Listing (unicode : UnicodeData) (mapping : Mapping) : Prop extends Ordinal mapping where
  nonempty : mapping ≠ []
  portable : ∀ name ∈ mapping.map Prod.fst, validatePortableName unicode name = .ok ()
  distinct : ((mapping.map Prod.fst).map fun name => unicode.casefold (unicode.nfc name)).Nodup

theorem parseLines_portable {expected result : Mapping} {lineNumber : Nat} {lines : List Text}
    (h : parseLines unicode expected lineNumber lines = .ok result)
    (hexpected : ∀ name ∈ expected.map Prod.fst, validatePortableName unicode name = .ok ()) :
    ∀ name ∈ result.map Prod.fst, validatePortableName unicode name = .ok () := by
  induction lines generalizing expected lineNumber with
  | nil =>
      cases h
      exact hexpected
  | cons line lines ih =>
      rw [parseLines] at h
      split at h
      next => cases h
      next sha256 sizeText name hmatch =>
        obtain ⟨_, hportable, h⟩ := bind_eq_ok.mp h
        obtain ⟨_, _, h⟩ := bind_eq_ok.mp h
        obtain ⟨size, _, h⟩ := bind_eq_ok.mp h
        refine ih h fun other hother => ?_
        rw [List.map_append, List.map_singleton, List.mem_append, List.mem_singleton] at hother
        rcases hother with hother | rfl
        · exact hexpected other hother
        · cases hvalid : validatePortableName unicode other with
          | ok value => rfl
          | error error =>
              rw [hvalid] at hportable
              cases hportable

theorem listing_of_parseText {text : Text} {mapping : Mapping}
    (h : parseText unicode text = .ok mapping) : Listing unicode mapping := by
  obtain ⟨hlast, hlines, hordinal⟩ := parseText_eq_ok h
  unfold parseText at h
  obtain ⟨_, _, h⟩ := bind_eq_ok.mp h
  obtain ⟨expected, hparsed, h⟩ := bind_eq_ok.mp h
  obtain ⟨_, _, h⟩ := bind_eq_ok.mp h
  obtain ⟨_, hdistinct, h⟩ := bind_eq_ok.mp h
  cases h
  refine ⟨hordinal, ?_, parseLines_portable hparsed (by simp),
    Decidable.not_not.mp (failIf_eq_ok.mp hdistinct)⟩
  rintro rfl
  refine splitlines_ne_nil ?_ hlines
  rintro rfl
  cases hlast

/-- Only the lines and the character at the end count. -/
theorem parseText_congr {text other : Text} {mapping : Mapping}
    (h : parseText unicode text = .ok mapping) (hlines : splitlines other = splitlines text)
    (hend : other.getLast? = some '\n') (hreturn : '\r' ∉ other) :
    parseText unicode other = .ok mapping := by
  unfold parseText at h ⊢
  obtain ⟨_, _, h⟩ := bind_eq_ok.mp h
  have hcheck : ¬(other = [] ∨ other.getLast? ≠ some '\n' ∨ '\r' ∈ other) := by
    rintro (rfl | hlast | hmem)
    · cases hend
    · exact hlast hend
    · exact hreturn hmem
  rw [failIf, if_neg hcheck, hlines]
  exact h

/-! ## Files -/

/-- A file whose text has no line boundary but the line feed. -/
def LineFeedFile (bytes : Bytes) : Prop := ∃ text, bytes = encode text ∧ LineFeedOnly text

/-- The text of an accepted file. -/
theorem parseAllowlist_eq_ok {bytes : Bytes} {mapping : Mapping} :
    parseAllowlist unicode (.regular (some bytes)) = .ok mapping ↔
      ∃ text, bytes = encode text ∧ parseText unicode text = .ok mapping := by
  simp only [parseAllowlist, requirePlainFile, Except.mapError, ok_bind, Option.bind_some]
  constructor
  · intro h
    split at h
    next => cases h
    next text htext =>
      refine ⟨text.toList, ?_, h⟩
      rw [← utf8_eq_encode]
      exact (fromUtf8_eq_some.mp htext).symm
  · rintro ⟨text, rfl, h⟩
    have hdecoded : fromUtf8 (encode text) = some (String.ofList text) := by
      rw [fromUtf8_eq_some, utf8_eq_encode, String.toList_ofList]
    rw [hdecoded]
    dsimp only
    rwa [String.toList_ofList]

theorem listing_of_parseAllowlist {path : PathState} {mapping : Mapping}
    (h : parseAllowlist unicode path = .ok mapping) : Listing unicode mapping := by
  unfold parseAllowlist at h
  obtain ⟨content, _, h⟩ := bind_eq_ok.mp h
  split at h
  next => cases h
  next => exact listing_of_parseText h

variable {bytes other : Bytes} {mapping otherMapping : Mapping}

/-- The rendering is accepted again, with the same mapping, and has line feeds only. -/
theorem parseAllowlist_render
    (h : parseAllowlist unicode (.regular (some bytes)) = .ok mapping) :
    parseAllowlist unicode (.regular (some (render mapping))) = .ok mapping ∧
      LineFeedFile (render mapping) := by
  obtain ⟨text, rfl, htext⟩ := parseAllowlist_eq_ok.mp h
  obtain ⟨hlast, hlines, hordinal⟩ := parseText_eq_ok htext
  have hinside : ∀ line ∈ mapping.map renderLine, ∀ char ∈ line, isLineBoundary char = false :=
    fun line hline char hchar => isLineBoundary_of_mem_splitlines (hlines ▸ hline) hchar
  have honly := lineFeedOnly_terminateLines hinside
  have hrender : renderText mapping = terminateLines (mapping.map renderLine) := by
    rw [renderText, hordinal.ordered_eq]
  have hend : (renderText mapping).getLast? = some '\n' := by
    rw [hrender]
    apply getLast?_terminateLines
    rw [← hlines]
    apply splitlines_ne_nil
    rintro rfl
    cases hlast
  refine ⟨parseAllowlist_eq_ok.mpr ⟨renderText mapping, rfl, ?_⟩,
    ⟨renderText mapping, rfl, hrender ▸ honly⟩⟩
  apply parseText_congr htext _ hend
  · intro hreturn
    have hboundary := hrender ▸ honly
    exact absurd (hboundary '\r' hreturn (by decide)) (by decide)
  · rw [hrender, splitlines_terminateLines hinside, hlines]

/-- An accepted file with line feeds only is the rendering of its mapping. -/
theorem eq_render_of_lineFeedFile
    (h : parseAllowlist unicode (.regular (some bytes)) = .ok mapping)
    (honly : LineFeedFile bytes) : bytes = render mapping := by
  obtain ⟨text, rfl, htext⟩ := parseAllowlist_eq_ok.mp h
  obtain ⟨hlast, hlines, hordinal⟩ := parseText_eq_ok htext
  obtain ⟨other, hother, honly⟩ := honly
  obtain rfl := encode_injective hother
  rw [render, renderText, hordinal.ordered_eq, ← hlines,
    terminateLines_splitlines honly (.inr hlast)]

theorem ordinal_of_parseAllowlist
    (h : parseAllowlist unicode (.regular (some bytes)) = .ok mapping) : Ordinal mapping := by
  obtain ⟨text, _, htext⟩ := parseAllowlist_eq_ok.mp h
  exact (parseText_eq_ok htext).2.2

/-- An accepted file is the canonical rendering of its mapping exactly when it has no line
boundary but the line feed, and exactly then no other file of that kind has its mapping. -/
theorem parseAllowlist_canonical
    (h : parseAllowlist unicode (.regular (some bytes)) = .ok mapping) :
    (bytes = render mapping ↔ LineFeedFile bytes) ∧
      (LineFeedFile bytes ↔ ∀ other otherMapping,
        parseAllowlist unicode (.regular (some other)) = .ok otherMapping →
          LineFeedFile other → otherMapping.Perm mapping → other = bytes) := by
  obtain ⟨hrender, hrenderOnly⟩ := parseAllowlist_render h
  have hcanonical : bytes = render mapping ↔ LineFeedFile bytes := by
    constructor
    · intro heq
      rw [heq]
      exact hrenderOnly
    · exact eq_render_of_lineFeedFile h
  refine ⟨hcanonical, ?_, ?_⟩
  · intro honly other otherMapping hother hotherOnly hperm
    have hmapping : otherMapping = mapping :=
      (ordinal_of_parseAllowlist hother).eq_of_perm (ordinal_of_parseAllowlist h) hperm
    rw [eq_render_of_lineFeedFile hother hotherOnly, hmapping, ← eq_render_of_lineFeedFile h honly]
  · intro hunique
    rw [← hunique (render mapping) mapping hrender hrenderOnly (List.Perm.refl _)]
    exact hrenderOnly

/-- The line of an empty file. -/
def emptyFileLine (name : Text) : Text :=
  "e3b0c44298fc1c149afbf4c8996fb92427ae41e4649b934ca495991b7852b855  0  ".toList ++ name

def emptyFile : ExpectedFile where
  sha256 := "e3b0c44298fc1c149afbf4c8996fb92427ae41e4649b934ca495991b7852b855".toList
  size := 0

/-- Two lines with a line feed between them, and with a vertical tab. -/
def lineFeedText : Text := emptyFileLine ['a'] ++ '\n' :: emptyFileLine ['b'] ++ ['\n']

def verticalTabText : Text := emptyFileLine ['a'] ++ '\x0b' :: emptyFileLine ['b'] ++ ['\n']

theorem parseText_lineFeedText :
    parseText .ascii lineFeedText = .ok [(['a'], emptyFile), (['b'], emptyFile)] := by
  decide +kernel

theorem parseText_verticalTabText :
    parseText .ascii verticalTabText = .ok [(['a'], emptyFile), (['b'], emptyFile)] := by
  decide +kernel

theorem not_lineFeedFile_verticalTab : ¬LineFeedFile (encode verticalTabText) := by
  rintro ⟨text, htext, honly⟩
  obtain rfl := encode_injective htext
  exact absurd (honly '\x0b' (by decide) (by decide)) (by decide)

/-- The file with line feeds is the canonical one. -/
theorem parseAllowlist_canonical_lineFeed :
    encode lineFeedText = render [(['a'], emptyFile), (['b'], emptyFile)] := by
  have haccepted := parseAllowlist_eq_ok.mpr ⟨lineFeedText, rfl, parseText_lineFeedText⟩
  apply (parseAllowlist_canonical haccepted).1.mpr
  have hall : lineFeedText.all (fun char => !isLineBoundary char || char == '\n') = true := by
    decide +kernel
  refine ⟨lineFeedText, rfl, ?_⟩
  intro char hchar hboundary
  have hcheck := List.all_eq_true.mp hall char hchar
  rwa [hboundary, Bool.not_true, Bool.false_or, beq_iff_eq] at hcheck

/-- A vertical tab between two lines is accepted, so two files have one mapping. -/
theorem vertical_tab_accepted :
    ∃ first second mapping, first ≠ second ∧ first ≠ render mapping ∧
      parseAllowlist .ascii (.regular (some first)) = .ok mapping ∧
      parseAllowlist .ascii (.regular (some second)) = .ok mapping := by
  have hfirst := parseAllowlist_eq_ok.mpr ⟨verticalTabText, rfl, parseText_verticalTabText⟩
  have hsecond := parseAllowlist_eq_ok.mpr ⟨lineFeedText, rfl, parseText_lineFeedText⟩
  refine ⟨_, _, _, ?_, ?_, hfirst, hsecond⟩
  · intro heq
    exact absurd (encode_injective heq) (by decide)
  · intro heq
    apply not_lineFeedFile_verticalTab
    rw [heq]
    exact (parseAllowlist_render hfirst).2

end Release

end Oasi
