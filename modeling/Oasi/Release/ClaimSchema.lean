import Oasi.Release.SchemaCorrection

/-! # The schema of the public claims

The host and the standard differ on it in the closing anchor of the two patterns only:
the host also accepts a text with one line feed behind the match. Dropping these line
feeds turns what the validator accepts into what the schema means.
-/

namespace Oasi

namespace JsonSchema

def Json.ofString (text : String) : Json := .str (points text)

def member (name : String) (value : Json) : Text × Json := (points name, value)

/-- `\x7b"type": "string", "minLength": 1\x7d` -/
def nonEmptyText : Json := .dict [member "type" (.ofString "string"), member "minLength" (.int 1)]

def patternText (pattern : String) : Json :=
  .dict [member "type" (.ofString "string"), member "pattern" (.ofString pattern)]

def nonEmptyArray (itemSchema : Json) : Json :=
  .dict [member "type" (.ofString "array"), member "minItems" (.int 1), member "items" itemSchema]

def evidenceProperties : Members :=
  [member "path" nonEmptyText, member "sha256" (patternText "^[0-9a-f]\x7b64\x7d$")]

/-- `$defs/evidence` -/
def evidenceSchema : Members :=
  [member "type" (.ofString "object"),
    member "required" (.list (["path", "sha256"].map .ofString)),
    member "properties" (.dict evidenceProperties),
    member "additionalProperties" (.bool false)]

def claimProperties : Members :=
  [member "id" (patternText "^CL-[0-9]\x7b3\x7d$"),
    member "wording" nonEmptyText,
    member "evidence" (nonEmptyArray (.dict [member "$ref" (.ofString "#/$defs/evidence")])),
    member "scope" nonEmptyText,
    member "exclusions" (nonEmptyArray (.dict [member "type" (.ofString "string")])),
    member "confidence" (.dict [member "enum" (.list (["DEFINITION",
      "IMPLEMENTED_AND_TESTED_LOCAL", "VERIFIED_HISTORICAL_AUDIT", "PINNED_EVIDENCE",
      "BOUNDED_INFERENCE", "INTERNAL_METHOD_REEXECUTION", "LOCAL_DETERMINISTIC_NEGATIVE",
      "BOUNDED_DIAGNOSTIC"].map .ofString))])]

def claimKeywords : Members :=
  [member "$schema" (.ofString "https://json-schema.org/draft/2020-12/schema"),
    member "$id" (.ofString "https://example.invalid/oasi/schemas/claim.schema.json"),
    member "title" (.ofString "OASI bounded public claim"),
    member "type" (.ofString "object"),
    member "required" (.list (["id", "wording", "evidence", "scope", "exclusions",
      "confidence"].map .ofString)),
    member "properties" (.dict claimProperties),
    member "additionalProperties" (.bool false),
    member "$defs" (.dict [member "evidence" (.dict evidenceSchema)])]

/-- `schemas/claim.schema.json` -/
def claimSchema : Json := .dict claimKeywords

/-! ## Its corrections -/

/-- One final line feed of the digest is dropped. -/
def evidenceCorrection (name : Text) : Json → Json :=
  if name = points "sha256" then .onText Pattern.dropFinalLineFeed else id

/-- One final line feed of the identifier and of each digest is dropped. -/
def claimCorrection (name : Text) : Json → Json :=
  if name = points "id" then .onText Pattern.dropFinalLineFeed
  else if name = points "evidence" then .onItems (.onMembers evidenceCorrection)
  else id

def withoutFinalLineFeeds : Json → Json := .onMembers claimCorrection

/-- The ranges of a literal. -/
def literal (char : Char) : Pattern.Ranges := [(point char, point char)]

def decimalDigit : Pattern.Ranges := [(point '0', point '9')]

def hexDigit : Pattern.Ranges := [(point '0', point '9'), (point 'a', point 'f')]

variable {rootSchema : Json}

theorem corrects_patternText {pattern : String} {classes : List Pattern.Ranges}
    (hparse : Pattern.parse (points pattern) = some (Pattern.anchored classes))
    (hfree : classes.all (fun ranges => !ranges.contains (point '\n')) = true) :
    Corrects rootSchema (patternText pattern) (.onText Pattern.dropFinalLineFeed) := by
  have hfree : Pattern.LineFeedFree classes := by
    intro ranges hranges
    have hline := List.all_eq_true.mp hfree ranges hranges
    rwa [Bool.not_eq_true'] at hline
  refine Corrects.pattern ⟨⟨?_, ?_, ?_⟩, ?_, ?_, ?_, ?_⟩ hparse hfree <;>
    simp [member, List.lookup_cons, Json.ofString]

theorem corrects_id :
    Corrects rootSchema (patternText "^CL-[0-9]\x7b3\x7d$")
      (.onText Pattern.dropFinalLineFeed) := by
  have hparse : Pattern.parse (points "^CL-[0-9]\x7b3\x7d$") =
      some (Pattern.anchored ([literal 'C', literal 'L', literal '-'] ++
        List.replicate 3 decimalDigit)) := by
    decide +kernel
  exact corrects_patternText hparse (by decide +kernel)

theorem corrects_sha256 :
    Corrects rootSchema (patternText "^[0-9a-f]\x7b64\x7d$")
      (.onText Pattern.dropFinalLineFeed) := by
  have hparse : Pattern.parse (points "^[0-9a-f]\x7b64\x7d$") =
      some (Pattern.anchored (List.replicate 64 hexDigit)) := by
    decide +kernel
  exact corrects_patternText hparse (by decide +kernel)

theorem corrects_nonEmptyText : Corrects rootSchema nonEmptyText id := by
  refine Corrects.plainLeaf ⟨⟨?_, ?_, ?_⟩, ?_, ?_, ?_⟩ <;>
    simp [member, List.lookup_cons, Json.ofString]

theorem corrects_text : Corrects rootSchema (.dict [member "type" (.ofString "string")]) id := by
  refine Corrects.plainLeaf ⟨⟨?_, ?_, ?_⟩, ?_, ?_, ?_⟩ <;>
    simp [member, List.lookup_cons, Json.ofString]

theorem corrects_enum (texts : List String) :
    Corrects rootSchema (.dict [member "enum" (.list (texts.map .ofString))]) id := by
  refine Corrects.plainLeaf ⟨⟨?_, ?_, ?_⟩, ?_, ?_, ?_⟩
  case refine_5 =>
    intro options hoptions option hoption
    simp only [member, List.lookup_cons, beq_self_eq_true, Option.some.injEq,
      Json.list.injEq] at hoptions
    subst hoptions
    obtain ⟨text, _, rfl⟩ := List.mem_map.mp hoption
    exact ⟨points text, rfl⟩
  all_goals simp [member, List.lookup_cons]

theorem corrects_nonEmptyArray {itemSchema : Json} {correct : Json → Json}
    (h : Corrects rootSchema itemSchema correct) :
    Corrects rootSchema (nonEmptyArray itemSchema) (.onItems correct) := by
  have harray : IsArray [member "type" (.ofString "array"), member "minItems" (.int 1),
      member "items" itemSchema] 1 itemSchema := by
    constructor <;> simp [member, List.lookup_cons, Json.ofString]
  exact Corrects.array harray h

/-- Where nothing is to be corrected in the items the array stays as it is. -/
theorem onItems_id : Json.onItems id = id := by
  funext value
  cases value <;> simp [Json.onItems]

/-- The schema of a member and the correction that the name leads to. -/
theorem corrects_member {name : String} {schema : Json} {change : Text → Json → Json}
    {correct : Json → Json} (hchange : change (points name) = correct)
    (h : Corrects rootSchema schema correct) :
    Corrects rootSchema (member name schema).2 (change (member name schema).1) := by
  rw [member, hchange]
  exact h

theorem corrects_evidence :
    Corrects rootSchema (.dict evidenceSchema) (.onMembers evidenceCorrection) := by
  have hrecord : IsRecord evidenceSchema evidenceProperties := by
    constructor <;>
      simp [evidenceSchema, evidenceProperties, member, List.lookup_cons, Json.ofString]
  apply Corrects.record hrecord
  simp only [evidenceProperties, List.forall_mem_cons]
  refine ⟨?_, ?_, by simp⟩
  · exact corrects_member (by simp [evidenceCorrection]) corrects_nonEmptyText
  · exact corrects_member (by simp [evidenceCorrection]) corrects_sha256

/-- The one reference of the schema. -/
theorem resolveReference_evidence :
    resolveReference claimSchema (.ofString "#/$defs/evidence") = .dict evidenceSchema := by
  rfl

theorem corrects_evidenceReference :
    Corrects claimSchema (.dict [member "$ref" (.ofString "#/$defs/evidence")])
      (.onMembers evidenceCorrection) := by
  apply Corrects.reference
  case reference => exact .ofString "#/$defs/evidence"
  · simp [member]
  · simp [member]
  · rw [resolveReference_evidence]
    exact corrects_evidence

theorem corrects_claimSchema : Corrects claimSchema claimSchema withoutFinalLineFeeds := by
  have hrecord : IsRecord claimKeywords claimProperties := by
    constructor <;>
      simp [claimKeywords, claimProperties, member, List.lookup_cons, Json.ofString]
  apply Corrects.record hrecord
  have hexclusions : Corrects claimSchema
      (nonEmptyArray (.dict [member "type" (.ofString "string")])) id := by
    rw [← onItems_id]
    exact corrects_nonEmptyArray corrects_text
  simp only [claimProperties, List.forall_mem_cons]
  refine ⟨?_, ?_, ?_, ?_, ?_, ?_, by simp⟩
  · exact corrects_member (by simp [claimCorrection]) corrects_id
  · exact corrects_member (by simp [claimCorrection]) corrects_nonEmptyText
  · exact corrects_member (by simp [claimCorrection])
      (corrects_nonEmptyArray corrects_evidenceReference)
  · exact corrects_member (by simp [claimCorrection]) corrects_nonEmptyText
  · exact corrects_member (by simp [claimCorrection]) hexclusions
  · exact corrects_member (by simp [claimCorrection]) (corrects_enum _)

theorem supported_claimSchema (fuel : Nat) :
    supported claimSchema (fuel + 5) claimSchema = true := by
  rfl

theorem claimSchema_decides (fuel : Nat) (value : Json) (location : Text) :
    (jsonSchemaViolations claimSchema (fuel + 5) value claimSchema location).Decides
      (Valid .host claimSchema claimSchema value) :=
  jsonSchemaViolations_decides (supported_claimSchema fuel)

/-- The validator lists no violation exactly when the claim is valid, unless the line feeds
that are dropped are all that keeps it from being valid. -/
theorem claim_violations_iff (fuel : Nat) (value : Json) (location : Text) :
    (jsonSchemaViolations claimSchema (fuel + 5) value claimSchema location).result = .ok () ∧
      (((jsonSchemaViolations claimSchema (fuel + 5) value claimSchema location).messages = [] ↔
          Valid .standard claimSchema claimSchema value) ↔
        withoutFinalLineFeeds value = value ∨
          ¬Valid .standard claimSchema claimSchema (withoutFinalLineFeeds value)) := by
  obtain ⟨hresult, hmessages⟩ := claimSchema_decides fuel value location
  refine ⟨hresult, ?_⟩
  rw [hmessages, corrects_claimSchema.accepts]
  by_cases hsame : withoutFinalLineFeeds value = value
  · rw [hsame]
    exact iff_of_true Iff.rfl (.inl rfl)
  · have hinvalid : ¬Valid .standard claimSchema claimSchema value := fun hvalid =>
      hsame (corrects_claimSchema.keeps value hvalid)
    simp [hsame, hinvalid]

/-- A row of the claims with a given identifier. -/
def claimMembers (identifier : String) : Members :=
  [member "id" (.ofString identifier), member "wording" (.ofString "wording"),
    member "evidence" (.list [.dict [member "path" (.ofString "fixture.txt"),
      member "sha256" (.ofString
        "0000000000000000000000000000000000000000000000000000000000000000")]]),
    member "scope" (.ofString "scope"), member "exclusions" (.list [.ofString "exclusion"]),
    member "confidence" (.ofString "DEFINITION")]

/-- The validator accepts an identifier with a line feed at its end, which is not valid. -/
theorem claim_final_line_feed_accepted :
    ∃ value, (jsonSchemaViolations claimSchema 5 value claimSchema (points "claims[0]")).Clean () ∧
      ¬Valid .standard claimSchema claimSchema value := by
  have hresult := (claimSchema_decides 0 (.dict (claimMembers "CL-123\n")) (points "claims[0]")).1
  refine ⟨_, ⟨by decide +kernel, hresult⟩, fun hvalid => ?_⟩
  have hsame := Json.dict.inj (corrects_claimSchema.keeps _ hvalid)
  have hid := congrArg (List.lookup (points "id")) hsame
  rw [lookup_changeMembers] at hid
  simp only [claimMembers, member, List.lookup_cons_self, Option.map_some, Option.some.injEq,
    claimCorrection, if_pos, Json.onText, Json.ofString, Json.str.injEq] at hid
  exact absurd hid (by decide +kernel)

end JsonSchema

end Oasi
