import Oasi.Release.SchemaDecision

/-! # What the host accepts beyond the standard

The two dialects differ in the closing anchor of a pattern. A correction of the value
undoes the difference: the host accepts what the standard accepts after the correction,
and nothing that the standard accepts is changed. Corrections follow the schema.
-/

namespace Oasi

namespace JsonSchema

/-- Changes the member of a name. Of equal names the first one is changed. -/
def changeMembers (change : Text → Json → Json) : Members → Members
  | [] => []
  | (name, value) :: members =>
      (name, change name value) ::
        changeMembers (fun other => if other = name then id else change other) members

namespace Json

def onText (change : Text → Text) : Json → Json
  | .str text => .str (change text)
  | value => value

def onItems (change : Json → Json) : Json → Json
  | .list items => .list (items.map change)
  | value => value

def onMembers (change : Text → Json → Json) : Json → Json
  | .dict members => .dict (changeMembers change members)
  | value => value

end Json

theorem map_fst_changeMembers (change : Text → Json → Json) (members : Members) :
    (changeMembers change members).map Prod.fst = members.map Prod.fst := by
  induction members generalizing change with
  | nil => rfl
  | cons entry members ih => rw [changeMembers, List.map_cons, List.map_cons, ih]

theorem lookup_changeMembers (change : Text → Json → Json) (members : Members) (name : Text) :
    (changeMembers change members).lookup name = (members.lookup name).map (change name) := by
  induction members generalizing change with
  | nil => rfl
  | cons entry members ih =>
      rw [changeMembers, List.lookup_cons, List.lookup_cons, ih]
      by_cases hname : name = entry.1
      · simp [hname]
      · simp [hname, beq_eq_false_iff_ne.mpr hname]

theorem changeMembers_eq_self {change : Text → Json → Json} {members : Members}
    (h : ∀ name value, members.lookup name = some value → change name value = value) :
    changeMembers change members = members := by
  induction members generalizing change with
  | nil => rfl
  | cons entry members ih =>
      have hhead := h entry.1 entry.2 List.lookup_cons_self
      rw [changeMembers, hhead]
      congr 1
      apply ih
      intro name value hvalue
      by_cases hname : name = entry.1
      · simp [hname]
      · rw [if_neg hname]
        apply h
        rwa [List.lookup_cons, beq_eq_false_iff_ne.mpr hname]

/-- The correction undoes what the host accepts beyond the standard. -/
structure Corrects (rootSchema schema : Json) (correct : Json → Json) : Prop where
  accepts : ∀ value, Valid .host rootSchema schema value ↔
    Valid .standard rootSchema schema (correct value)
  keeps : ∀ value, Valid .standard rootSchema schema value → correct value = value

variable {dialect : Dialect} {rootSchema value : Json} {schema properties : Members}
variable {correct : Json → Json}

theorem Corrects.reference {reference : Json}
    (hreference : schema.lookup (points "$ref") = some reference)
    (hkeywords : ∀ member ∈ schema, member.1 ∈ annotations ++ [points "$ref"])
    (h : Corrects rootSchema (resolveReference rootSchema reference) correct) :
    Corrects rootSchema (.dict schema) correct := by
  constructor
  · intro value
    rw [valid_reference_iff hreference hkeywords, valid_reference_iff hreference hkeywords]
    exact h.accepts value
  · intro value hvalid
    exact h.keeps value ((valid_reference_iff hreference hkeywords).mp hvalid)

/-! ## Schemas that look at the value only -/

/-- The keywords that lead to another schema are absent. -/
structure IsLeaf (schema : Members) : Prop where
  reference : schema.lookup (points "$ref") = none
  items : schema.lookup (points "items") = none
  properties : schema.lookup (points "properties") = none

theorem valid_leaf_iff (h : IsLeaf schema) :
    Valid dialect rootSchema (.dict schema) value ↔ Assertions dialect schema value := by
  constructor
  · rintro (_ | ⟨assertions, _, _, _⟩)
    exact assertions
  · intro assertions
    refine .keywords assertions (no_target h.reference) ?_ ?_
    · simp [h.items]
    · simp [propertiesOf, h.properties]

/-- A text equals no value but itself. -/
theorem equalBy_str_iff {number : Json → Option FloatValue} {text : Text}
    (hnumber : number (.str text) = none) :
    Json.equalBy number (.str text) value = true ↔ value = .str text := by
  cases value with
  | str other =>
      rw [Json.equalBy, beq_iff_eq, Json.str.injEq]
      exact eq_comm
  | _ => simp [Json.equalBy, hnumber]

/-- A leaf on which the dialects agree. -/
structure IsPlainLeaf (schema : Members) : Prop extends IsLeaf schema where
  type : schema.lookup (points "type") ≠ some (.str (points "integer"))
  enum : ∀ options, schema.lookup (points "enum") = some (.list options) →
    ∀ option ∈ options, ∃ text, option = .str text
  pattern : schema.lookup (points "pattern") = none

theorem hasType_congr {first second : Dialect} {name : Text} (hname : name ≠ points "integer")
    (h : first.HasType name value) : second.HasType name value := by
  cases value <;> simp_all [Dialect.HasType]

theorem IsPlainLeaf.assertions_congr {first second : Dialect} (hleaf : IsPlainLeaf schema)
    (hfirst : ∀ text, first.number (.str text) = none)
    (hsecond : ∀ text, second.number (.str text) = none)
    (h : Assertions first schema value) : Assertions second schema value where
  type name hname := by
    refine hasType_congr ?_ (h.type name hname)
    rintro rfl
    exact hleaf.type hname
  enum options hoptions := by
    obtain ⟨option, hoption, hequal⟩ := h.enum options hoptions
    obtain ⟨text, rfl⟩ := hleaf.enum options hoptions option hoption
    rw [equalBy_str_iff (hfirst text)] at hequal
    exact ⟨_, hoption, (equalBy_str_iff (hsecond text)).mpr hequal⟩
  minLength := h.minLength
  pattern pattern text hpattern := by
    rw [hleaf.pattern] at hpattern
    cases hpattern
  minItems := h.minItems
  required := h.required
  additionalProperties := h.additionalProperties

theorem Corrects.plainLeaf (hleaf : IsPlainLeaf schema) :
    Corrects rootSchema (.dict schema) id := by
  constructor
  · intro value
    rw [id, valid_leaf_iff hleaf.toIsLeaf, valid_leaf_iff hleaf.toIsLeaf]
    constructor
    · exact hleaf.assertions_congr (fun _ => rfl) fun _ => rfl
    · exact hleaf.assertions_congr (fun _ => rfl) fun _ => rfl
  · intro _ _
    rfl

/-- `\x7b"type": "string", "pattern": pattern\x7d` -/
structure IsPattern (schema : Members) (pattern : Text) : Prop extends IsLeaf schema where
  type : schema.lookup (points "type") = some (.str (points "string"))
  enum : schema.lookup (points "enum") = none
  minLength : schema.lookup (points "minLength") = none
  pattern : schema.lookup (points "pattern") = some (.str pattern)

theorem IsPattern.valid_iff {pattern : Text} (h : IsPattern schema pattern) :
    Valid dialect rootSchema (.dict schema) value ↔
      ∃ text, value = .str text ∧ dialect.Matches pattern text := by
  rw [valid_leaf_iff h.toIsLeaf]
  constructor
  · intro assertions
    have htype := assertions.type _ h.type
    cases value with
    | str text => exact ⟨text, rfl, assertions.pattern pattern text h.pattern rfl⟩
    | _ => simp [Dialect.HasType] at htype
  · rintro ⟨text, rfl, hmatches⟩
    constructor <;> simp [h.type, h.enum, h.minLength, h.pattern, Dialect.HasType]
    exact hmatches

/-- Where both anchors surround classes without the line feed, a final line feed is all
that the host accepts beyond the standard. -/
theorem Corrects.pattern {pattern : Text} {classes : List Pattern.Ranges}
    (h : IsPattern schema pattern)
    (hparse : Pattern.parse pattern = some (Pattern.anchored classes))
    (hfree : Pattern.LineFeedFree classes) :
    Corrects rootSchema (.dict schema) (Json.onText Pattern.dropFinalLineFeed) := by
  have hmatches : ∀ (dialect : Dialect) (text : Text), dialect.Matches pattern text ↔
      Pattern.search dialect.atEnd (Pattern.anchored classes) text = true := by
    intro dialect text
    simp [Dialect.Matches, hparse]
  constructor
  · intro value
    rw [h.valid_iff, h.valid_iff]
    constructor
    · rintro ⟨text, rfl, hhost⟩
      refine ⟨_, rfl, (hmatches _ _).mpr ?_⟩
      exact (Pattern.search_beforeFinalLineFeed_iff hfree).mp ((hmatches _ _).mp hhost)
    · rintro ⟨dropped, hdropped, hstandard⟩
      cases value with
      | str text =>
          cases hdropped
          refine ⟨text, rfl, (hmatches _ _).mpr ?_⟩
          exact (Pattern.search_beforeFinalLineFeed_iff hfree).mpr ((hmatches _ _).mp hstandard)
      | _ => cases hdropped
  · intro value hvalid
    obtain ⟨text, rfl, hstandard⟩ := h.valid_iff.mp hvalid
    rw [Json.onText, Pattern.dropFinalLineFeed_eq_self hfree ((hmatches _ _).mp hstandard)]

/-! ## Arrays and objects -/

/-- `\x7b"type": "array", "minItems": minimum, "items": itemSchema\x7d` -/
structure IsArray (schema : Members) (minimum : Int) (itemSchema : Json) : Prop where
  reference : schema.lookup (points "$ref") = none
  type : schema.lookup (points "type") = some (.str (points "array"))
  enum : schema.lookup (points "enum") = none
  minItems : schema.lookup (points "minItems") = some (.int minimum)
  items : schema.lookup (points "items") = some itemSchema

theorem IsArray.valid_iff {minimum : Int} {itemSchema : Json}
    (h : IsArray schema minimum itemSchema) :
    Valid dialect rootSchema (.dict schema) value ↔
      ∃ items, value = .list items ∧ minimum ≤ items.length ∧
        ∀ item ∈ items, Valid dialect rootSchema itemSchema item := by
  constructor
  · rintro (_ | ⟨assertions, _, hitems, _⟩)
    have htype := assertions.type _ h.type
    cases value with
    | list items =>
        exact ⟨items, rfl, assertions.minItems minimum items h.minItems rfl,
          fun item hitem => hitems itemSchema items item h.items rfl hitem⟩
    | _ => simp [Dialect.HasType] at htype
  · rintro ⟨items, rfl, hminimum, hitems⟩
    refine .keywords ?_ (no_target h.reference) ?_ ?_
    · constructor <;> simp [h.type, h.enum, h.minItems, Dialect.HasType]
      exact hminimum
    · rintro found _ item hfound ⟨⟩ hitem
      rw [h.items] at hfound
      exact Option.some.inj hfound ▸ hitems item hitem
    · simp

theorem Corrects.array {minimum : Int} {itemSchema : Json} (h : IsArray schema minimum itemSchema)
    (hitem : Corrects rootSchema itemSchema correct) :
    Corrects rootSchema (.dict schema) (Json.onItems correct) := by
  constructor
  · intro value
    rw [h.valid_iff, h.valid_iff]
    constructor
    · rintro ⟨items, rfl, hminimum, hitems⟩
      refine ⟨_, rfl, by rwa [List.length_map], ?_⟩
      rw [List.forall_mem_map]
      exact fun item hmem => (hitem.accepts item).mp (hitems item hmem)
    · rintro ⟨corrected, hcorrected, hminimum, hitems⟩
      cases value with
      | list items =>
          cases hcorrected
          rw [List.length_map] at hminimum
          rw [List.forall_mem_map] at hitems
          exact ⟨items, rfl, hminimum, fun item hmem => (hitem.accepts item).mpr (hitems item hmem)⟩
      | _ => cases hcorrected
  · intro value hvalid
    obtain ⟨items, rfl, _, hitems⟩ := h.valid_iff.mp hvalid
    rw [Json.onItems, List.map_congr_left fun item hmem => hitem.keeps item (hitems item hmem),
      List.map_id']

/-- An object whose named members are required, each with a schema of its own, and which
has no others. -/
structure IsRecord (schema properties : Members) : Prop where
  reference : schema.lookup (points "$ref") = none
  type : schema.lookup (points "type") = some (.str (points "object"))
  enum : schema.lookup (points "enum") = none
  required : schema.lookup (points "required") =
    some (.list (properties.map fun property => .str property.1))
  properties : schema.lookup (points "properties") = some (.dict properties)
  additionalProperties : schema.lookup (points "additionalProperties") = some (.bool false)

theorem IsRecord.valid_iff (h : IsRecord schema properties) :
    Valid dialect rootSchema (.dict schema) value ↔
      ∃ members, value = .dict members ∧
        (∀ name ∈ members.map Prod.fst, name ∈ properties.map Prod.fst) ∧
        ∀ property ∈ properties, ∃ member, members.lookup property.1 = some member ∧
          Valid dialect rootSchema property.2 member := by
  have hproperties : propertiesOf schema = properties := by rw [propertiesOf, h.properties]
  constructor
  · rintro (_ | ⟨assertions, _, _, hmembers⟩)
    have htype := assertions.type _ h.type
    cases value with
    | dict members =>
        have hnames := assertions.additionalProperties members h.additionalProperties rfl
        rw [hproperties] at hnames hmembers
        refine ⟨members, rfl, hnames, fun property hproperty => ?_⟩
        -- no member is missing, so each property has a member of its own
        have hrequired : property.1 ∈ members.map Prod.fst :=
          assertions.required _ members h.required rfl _ (List.mem_map.mpr ⟨_, hproperty, rfl⟩)
        obtain ⟨member, hmember⟩ := mem_map_fst_iff.mp hrequired
        exact ⟨member, hmember, hmembers property members member hproperty rfl hmember⟩
    | _ => simp [Dialect.HasType] at htype
  · rintro ⟨members, rfl, hnames, hmembers⟩
    refine .keywords ?_ (no_target h.reference) ?_ ?_
    · constructor
      case type => simp [h.type, Dialect.HasType]
      case required =>
        rintro names _ hfound ⟨⟩ name hname
        rw [h.required] at hfound
        obtain rfl := Json.list.inj (Option.some.inj hfound)
        obtain ⟨property, hproperty, hstr⟩ := List.mem_map.mp hname
        obtain rfl := Json.str.inj hstr
        obtain ⟨member, hmember, _⟩ := hmembers property hproperty
        exact mem_map_fst_iff.mpr ⟨member, hmember⟩
      case additionalProperties =>
        rintro _ _ ⟨⟩
        rw [hproperties]
        exact hnames
      all_goals simp [h.enum]
    · simp
    · rintro property _ member hproperty ⟨⟩ hmember
      rw [hproperties] at hproperty
      obtain ⟨found, hfound, hvalid⟩ := hmembers property hproperty
      rw [hmember] at hfound
      exact Option.some.inj hfound ▸ hvalid

theorem Corrects.record {change : Text → Json → Json} (h : IsRecord schema properties)
    (hmembers : ∀ property ∈ properties, Corrects rootSchema property.2 (change property.1)) :
    Corrects rootSchema (.dict schema) (Json.onMembers change) := by
  constructor
  · intro value
    rw [h.valid_iff, h.valid_iff]
    constructor
    · rintro ⟨members, rfl, hnames, hvalid⟩
      refine ⟨_, rfl, by rwa [map_fst_changeMembers], fun property hproperty => ?_⟩
      obtain ⟨member, hmember, hhost⟩ := hvalid property hproperty
      refine ⟨change property.1 member, ?_, ((hmembers property hproperty).accepts _).mp hhost⟩
      rw [lookup_changeMembers, hmember, Option.map_some]
    · rintro ⟨corrected, hcorrected, hnames, hvalid⟩
      cases value with
      | dict members =>
          cases hcorrected
          rw [map_fst_changeMembers] at hnames
          refine ⟨members, rfl, hnames, fun property hproperty => ?_⟩
          obtain ⟨changed, hchanged, hstandard⟩ := hvalid property hproperty
          rw [lookup_changeMembers, Option.map_eq_some_iff] at hchanged
          obtain ⟨member, hmember, rfl⟩ := hchanged
          exact ⟨member, hmember, ((hmembers property hproperty).accepts _).mpr hstandard⟩
      | _ => cases hcorrected
  · intro value hvalid
    obtain ⟨members, rfl, hnames, hvalid⟩ := h.valid_iff.mp hvalid
    rw [Json.onMembers, changeMembers_eq_self]
    intro name value hvalue
    have hname := hnames name (mem_map_fst_iff.mpr ⟨value, hvalue⟩)
    obtain ⟨property, hproperty, rfl⟩ := List.mem_map.mp hname
    obtain ⟨member, hmember, hstandard⟩ := hvalid property hproperty
    rw [hvalue] at hmember
    obtain rfl := Option.some.inj hmember
    exact (hmembers property hproperty).keeps _ hstandard

end JsonSchema

end Oasi
