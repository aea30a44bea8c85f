import Oasi.Foundation.Associations
import Oasi.Release.SchemaValidity

/-! # The validator decides validity

On a supported schema no check gets stuck, and no violation is found exactly when the
value is valid in the dialect of the host. Each check decides the assertion of its
keyword, and the node puts them together.
-/

namespace Oasi

namespace JsonSchema

variable {rootSchema value : Json} {schema members : Members} {text location : Text}
variable {items : List Json} {validate : Validator} {supported : Json → Bool}

theorem parameterIs_iff {keyword : String} {expected : Json → Bool} :
    parameterIs schema keyword expected = true ↔
      ∀ parameter, schema.lookup (points keyword) = some parameter → expected parameter = true := by
  rw [parameterIs, Option.all_eq_true]

/-- The parameters of a supported schema have their types. -/
structure Parameters (supported : Json → Bool) (schema : Members) : Prop where
  type : ∀ parameter, schema.lookup (points "type") = some parameter → ∃ name, parameter = .str name
  enum : ∀ parameter, schema.lookup (points "enum") = some parameter →
    ∃ options, parameter = .list options
  minLength : ∀ parameter, schema.lookup (points "minLength") = some parameter →
    ∃ minimum, parameter = .int minimum
  pattern : ∀ parameter, schema.lookup (points "pattern") = some parameter →
    ∃ pattern items, parameter = .str pattern ∧ Pattern.parse pattern = some items
  minItems : ∀ parameter, schema.lookup (points "minItems") = some parameter →
    ∃ minimum, parameter = .int minimum
  items : ∀ parameter, schema.lookup (points "items") = some parameter →
    supported parameter = true
  required : ∀ parameter, schema.lookup (points "required") = some parameter →
    ∃ names, parameter = .list names ∧ ∀ name ∈ names, ∃ field, name = .str field
  properties : ∀ parameter, schema.lookup (points "properties") = some parameter →
    ∃ properties, parameter = .dict properties ∧
      ∀ property ∈ properties, supported property.2 = true
  additionalProperties : ∀ parameter,
    schema.lookup (points "additionalProperties") = some parameter →
      ∃ allowed, parameter = .bool allowed

theorem parameters_of_supportedNode (h : supportedNode supported schema = true) :
    Parameters supported schema := by
  simp only [supportedNode, Bool.and_eq_true, parameterIs_iff] at h
  -- one conjunct for each keyword, in the order of the fields
  obtain ⟨⟨⟨⟨⟨⟨⟨⟨⟨_, htype⟩, henum⟩, hminLength⟩, hpattern⟩, hminItems⟩, hitems⟩, hrequired⟩,
    hproperties⟩, hadditional⟩ := h
  constructor
  case type =>
    intro parameter hparameter
    have hexpected := htype parameter hparameter
    cases parameter <;> simp at hexpected ⊢
  case enum =>
    intro parameter hparameter
    have hexpected := henum parameter hparameter
    cases parameter <;> simp at hexpected ⊢
  case minLength =>
    intro parameter hparameter
    have hexpected := hminLength parameter hparameter
    cases parameter <;> simp at hexpected ⊢
  case pattern =>
    intro parameter hparameter
    have hexpected := hpattern parameter hparameter
    cases parameter with
    | str pattern =>
        obtain ⟨items, hitems⟩ := Option.isSome_iff_exists.mp hexpected
        exact ⟨pattern, items, rfl, hitems⟩
    | _ => cases hexpected
  case minItems =>
    intro parameter hparameter
    have hexpected := hminItems parameter hparameter
    cases parameter <;> simp at hexpected ⊢
  case items => exact hitems
  case required =>
    intro parameter hparameter
    have hexpected := hrequired parameter hparameter
    cases parameter with
    | list names =>
        refine ⟨names, rfl, fun name hname => ?_⟩
        have hstr := List.all_eq_true.mp hexpected name hname
        cases name <;> simp at hstr ⊢
    | _ => cases hexpected
  case properties =>
    intro parameter hparameter
    have hexpected := hproperties parameter hparameter
    cases parameter with
    | dict properties => exact ⟨properties, rfl, List.all_eq_true.mp hexpected⟩
    | _ => cases hexpected
  case additionalProperties =>
    intro parameter hparameter
    have hexpected := hadditional parameter hparameter
    cases parameter <;> simp at hexpected ⊢

/-! ## One check each -/

theorem typeMatches_nodup (value : Json) : ((typeMatches value).map Prod.fst).Nodup := by
  change (["object", "array", "string", "integer", "number", "boolean", "null"].map points).Nodup
  decide +kernel

theorem unmatchedType_eq_none_iff {name : Text} :
    unmatchedType value (.str name) = none ↔ Dialect.host.HasType name value := by
  have hlookup : ((typeMatches value).lookup name).getD false = true ↔
      (name, true) ∈ typeMatches value := by
    rw [← lookup_eq_some_iff_mem (typeMatches_nodup value)]
    cases (typeMatches value).lookup name <;> simp
  simp only [unmatchedType, ite_eq_left_iff, reduceCtorEq, imp_false, Decidable.not_not]
  rw [hlookup]
  cases value <;> simp [typeMatches, Dialect.HasType, Dialect.host]

theorem unmatchedType_get_eq_none_iff (value : Json) (hparameters : Parameters supported schema) :
    unmatchedType value (get schema "type") = none ↔
      ∀ name, schema.lookup (points "type") = some (.str name) →
        Dialect.host.HasType name value := by
  unfold get
  cases hlookup : schema.lookup (points "type") with
  | none => simp [unmatchedType]
  | some parameter =>
      obtain ⟨name, rfl⟩ := hparameters.type parameter hlookup
      simp [unmatchedType_eq_none_iff]

theorem checkEnum_decides (value : Json) (location : Text)
    (hparameters : Parameters supported schema) :
    (checkEnum schema value location).Decides
      (∀ options, schema.lookup (points "enum") = some (.list options) →
        ∃ option ∈ options, option.equalBy Dialect.host.number value = true) := by
  unfold checkEnum
  cases hlookup : schema.lookup (points "enum") with
  | none => exact Reported.Decides.pure_unit.congr (by simp)
  | some parameter =>
      obtain ⟨options, rfl⟩ := hparameters.enum parameter hlookup
      refine Reported.Decides.ofExcept_bind rfl ?_
      apply (Reported.Decides.noteIf_condition _ _).congr
      simp [Json.equal, Dialect.host]

theorem shorterThan_get_iff {keyword : String} {length : Nat}
    (hinteger : ∀ parameter, schema.lookup (points keyword) = some parameter →
      ∃ minimum, parameter = .int minimum) :
    ¬shorterThan length (get schema keyword) = true ↔
      ∀ minimum, schema.lookup (points keyword) = some (.int minimum) → minimum ≤ length := by
  unfold get
  cases hlookup : schema.lookup (points keyword) with
  | none => simp [shorterThan]
  | some parameter =>
      obtain ⟨minimum, rfl⟩ := hinteger parameter hlookup
      simp [shorterThan]

theorem checkString_decides (hparameters : Parameters supported schema) :
    (checkString schema text location).Decides
      ((∀ minimum, schema.lookup (points "minLength") = some (.int minimum) →
          minimum ≤ text.length) ∧
        ∀ pattern, schema.lookup (points "pattern") = some (.str pattern) →
          Dialect.host.Matches pattern text) := by
  refine Reported.Decides.bind_unit ?_ ?_
  · exact (Reported.Decides.noteIf_condition _ _).congr (shorterThan_get_iff hparameters.minLength)
  · unfold get
    cases hlookup : schema.lookup (points "pattern") with
    | none => exact Reported.Decides.pure_unit.congr (by simp)
    | some parameter =>
        obtain ⟨pattern, items, rfl, hparse⟩ := hparameters.pattern parameter hlookup
        have hsearch : searchIsNone pattern text =
            .ok !Pattern.search Pattern.beforeFinalLineFeed items text := by
          rw [searchIsNone, hparse]
        refine Reported.Decides.ofExcept_bind hsearch ?_
        apply (Reported.Decides.noteIf_condition _ _).congr
        simp [Dialect.Matches, Dialect.host, hparse]

theorem checkItems_decides {holds : Json → Json → Prop}
    (hparameters : Parameters supported schema) (hnull : supported .null = false)
    (hvalidate : ∀ child value location, supported child = true →
      (validate value child location).Decides (holds child value)) :
    (checkItems validate schema items location).Decides
      ((∀ minimum, schema.lookup (points "minItems") = some (.int minimum) →
          minimum ≤ items.length) ∧
        ∀ itemSchema, schema.lookup (points "items") = some itemSchema →
          ∀ item ∈ items, holds itemSchema item) := by
  refine Reported.Decides.bind_unit ?_ ?_
  · exact (Reported.Decides.noteIf_condition _ _).congr (shorterThan_get_iff hparameters.minItems)
  · unfold get
    cases hlookup : schema.lookup (points "items") with
    | none => exact Reported.Decides.pure_unit.congr (by simp)
    | some itemSchema =>
        have hsupported := hparameters.items itemSchema hlookup
        have hloop : (items.zipIdx.forM fun entry =>
            validate entry.1 itemSchema (itemLocation location entry.2)).Decides
              (∀ entry ∈ items.zipIdx, holds itemSchema entry.1) :=
          Reported.Decides.forM_list fun entry _ => hvalidate itemSchema entry.1 _ hsupported
        have hentries : (∀ entry ∈ items.zipIdx, holds itemSchema entry.1) ↔
            ∀ item ∈ items, holds itemSchema item := by
          rw [← List.forall_mem_map, List.zipIdx_map_fst]
        cases itemSchema with
        | null =>
            rw [hnull] at hsupported
            cases hsupported
        | _ => exact hloop.congr (hentries.trans (by simp))

theorem checkRequiredField_decides (members : Members) (location : Text) {field : Json}
    (hstring : ∃ name, field = .str name) :
    (checkRequiredField members location field).Decides
      (∀ name, field = .str name → name ∈ members.map Prod.fst) := by
  obtain ⟨name, rfl⟩ := hstring
  exact (Reported.Decides.noteIf_condition _ _).congr (by simp)

theorem checkRequired_decides (hparameters : Parameters supported schema) :
    (checkRequired schema members location).Decides
      (∀ names, schema.lookup (points "required") = some (.list names) →
        ∀ name, .str name ∈ names → name ∈ members.map Prod.fst) := by
  unfold checkRequired
  cases hlookup : schema.lookup (points "required") with
  | none => exact Reported.Decides.pure_unit.congr (by simp)
  | some parameter =>
      obtain ⟨names, rfl, hstrings⟩ := hparameters.required parameter hlookup
      have hloop := Reported.Decides.forM_list fun field hfield =>
        checkRequiredField_decides members location (hstrings field hfield)
      refine hloop.congr ⟨?_, ?_⟩
      · intro hfields found hfound name hname
        obtain rfl := Json.list.inj (Option.some.inj hfound)
        exact hfields _ hname name rfl
      · rintro hnames field hfield name rfl
        exact hnames names rfl name hfield

theorem checkAdditional_decides {properties : Members}
    (hparameters : Parameters supported schema) :
    (checkAdditional schema properties members location).Decides
      (schema.lookup (points "additionalProperties") = some (.bool false) →
        ∀ name ∈ members.map Prod.fst, name ∈ properties.map Prod.fst) := by
  unfold checkAdditional get
  cases hlookup : schema.lookup (points "additionalProperties") with
  | none => exact Reported.Decides.pure_unit.congr (by simp)
  | some parameter =>
      obtain ⟨allowed, rfl⟩ := hparameters.additionalProperties parameter hlookup
      cases allowed with
      | true => exact Reported.Decides.pure_unit.congr (by simp)
      | false =>
          refine (Reported.Decides.forM_list fun name _ =>
            Reported.Decides.noteIf_condition (name ∉ properties.map Prod.fst) _).congr ?_
          simp

theorem checkProperty_decides {property : Text × Json} {holds : Json → Prop}
    (hvalidate : ∀ member, (validate member property.2
      (fieldLocation location property.1)).Decides (holds member)) :
    (checkProperty validate members location property).Decides
      (∀ member, members.lookup property.1 = some member → holds member) := by
  unfold checkProperty
  cases members.lookup property.1 with
  | none => exact Reported.Decides.pure_unit.congr (by simp)
  | some member => exact (hvalidate member).congr (by simp)

theorem checkProperties_decides {holds : Json → Json → Prop}
    (hparameters : Parameters supported schema)
    (hvalidate : ∀ child value location, supported child = true →
      (validate value child location).Decides (holds child value)) :
    (checkProperties validate schema members location).Decides
      ((schema.lookup (points "additionalProperties") = some (.bool false) →
          ∀ name ∈ members.map Prod.fst, name ∈ (propertiesOf schema).map Prod.fst) ∧
        ∀ property ∈ propertiesOf schema, ∀ member, members.lookup property.1 = some member →
          holds property.2 member) := by
  have hproperties : checkProperties validate schema members location = (do
      checkAdditional schema (propertiesOf schema) members location
      (propertiesOf schema).forM (checkProperty validate members location)) := by
    unfold checkProperties propertiesOf
    cases hlookup : schema.lookup (points "properties") with
    | none => rfl
    | some parameter =>
        obtain ⟨properties, rfl, _⟩ := hparameters.properties parameter hlookup
        rfl
  have hsupported : ∀ property ∈ propertiesOf schema, supported property.2 = true := by
    unfold propertiesOf
    cases hlookup : schema.lookup (points "properties") with
    | none => simp
    | some parameter =>
        obtain ⟨properties, rfl, hchildren⟩ := hparameters.properties parameter hlookup
        exact hchildren
  rw [hproperties]
  refine Reported.Decides.bind_unit (checkAdditional_decides hparameters) ?_
  exact Reported.Decides.forM_list fun property hproperty =>
    checkProperty_decides fun member =>
      hvalidate property.2 member _ (hsupported property hproperty)

/-! ## A node, and the whole schema -/

/-- The keyword that a node without a reference leaves out. -/
theorem no_target {dialect : Dialect} (href : schema.lookup (points "$ref") = none) :
    ∀ reference, schema.lookup (points "$ref") = some reference →
      Valid dialect rootSchema (resolveReference rootSchema reference) value := by
  intro reference hreference
  rw [href] at hreference
  cases hreference

theorem checkNode_decides (hnode : supportedNode supported schema = true)
    (hnull : supported .null = false) (href : schema.lookup (points "$ref") = none)
    (hvalidate : ∀ child value location, supported child = true →
      (validate value child location).Decides (Valid .host rootSchema child value)) :
    (checkNode validate value schema location).Decides
      (Valid .host rootSchema (.dict schema) value) := by
  have hparameters := parameters_of_supportedNode hnode
  have htype := unmatchedType_get_eq_none_iff value hparameters
  unfold checkNode
  cases hunmatched : unmatchedType value (get schema "type") with
  | some expected =>
      rw [hunmatched] at htype
      refine (Reported.Decides.note_message _).congr ?_
      rw [false_iff]
      intro hvalid
      cases hvalid with
      | keywords assertions => cases htype.mpr assertions.type
  | none =>
      have htype := htype.mp hunmatched
      have henum := checkEnum_decides value location hparameters
      -- Each kind of value has keywords of its own; the others assert nothing of it.
      cases value with
      | str text =>
          refine (henum.bind_unit (checkString_decides hparameters)).congr ⟨?_, ?_⟩
          · rintro ⟨henum, hminLength, hpattern⟩
            refine .keywords ⟨htype, henum, ?_, ?_, ?_, ?_, ?_⟩ (no_target href) ?_ ?_
            · rintro minimum _ hlookup ⟨⟩
              exact hminLength minimum hlookup
            · rintro pattern _ hlookup ⟨⟩
              exact hpattern pattern hlookup
            all_goals simp
          · rintro (_ | ⟨assertions, _, _, _⟩)
            exact ⟨assertions.enum,
              fun minimum hlookup => assertions.minLength minimum text hlookup rfl,
              fun pattern hlookup => assertions.pattern pattern text hlookup rfl⟩
      | list items =>
          refine (henum.bind_unit (checkItems_decides hparameters hnull hvalidate)).congr ⟨?_, ?_⟩
          · rintro ⟨henum, hminItems, hitems⟩
            refine .keywords ⟨htype, henum, ?_, ?_, ?_, ?_, ?_⟩ (no_target href) ?_ ?_
            case refine_3 =>
              rintro minimum _ hlookup ⟨⟩
              exact hminItems minimum hlookup
            case refine_6 =>
              rintro itemSchema _ item hlookup ⟨⟩ hitem
              exact hitems itemSchema hlookup item hitem
            all_goals simp
          · rintro (_ | ⟨assertions, _, hitems, _⟩)
            exact ⟨assertions.enum,
              fun minimum hlookup => assertions.minItems minimum items hlookup rfl,
              fun itemSchema hlookup item hitem => hitems itemSchema items item hlookup rfl hitem⟩
      | dict members =>
          refine (henum.bind_unit ((checkRequired_decides hparameters).bind_unit
            (checkProperties_decides hparameters hvalidate))).congr ⟨?_, ?_⟩
          · rintro ⟨henum, hrequired, hadditional, hproperties⟩
            refine .keywords ⟨htype, henum, ?_, ?_, ?_, ?_, ?_⟩ (no_target href) ?_ ?_
            case refine_4 =>
              rintro names _ hlookup ⟨⟩
              exact hrequired names hlookup
            case refine_5 =>
              rintro _ hlookup ⟨⟩
              exact hadditional hlookup
            case refine_7 =>
              rintro property _ member hproperty ⟨⟩ hmember
              exact hproperties property hproperty member hmember
            all_goals simp
          · rintro (_ | ⟨assertions, _, _, hproperties⟩)
            exact ⟨assertions.enum,
              fun names hlookup => assertions.required names members hlookup rfl,
              fun hlookup => assertions.additionalProperties members hlookup rfl,
              fun property hproperty member hmember =>
                hproperties property members member hproperty rfl hmember⟩
      | _ =>
          refine (henum.bind_unit Reported.Decides.pure_unit).congr ⟨?_, ?_⟩
          · rintro ⟨henum, _⟩
            refine .keywords ⟨htype, henum, ?_, ?_, ?_, ?_, ?_⟩ (no_target href) ?_ ?_
            all_goals simp
          · rintro (_ | ⟨assertions, _, _, _⟩)
            exact ⟨assertions.enum, trivial⟩

/-- Beside annotations a reference stands alone. -/
theorem valid_reference_iff {dialect : Dialect} {reference : Json}
    (hreference : schema.lookup (points "$ref") = some reference)
    (hkeywords : ∀ member ∈ schema, member.1 ∈ annotations ++ [points "$ref"]) :
    Valid dialect rootSchema (.dict schema) value ↔
      Valid dialect rootSchema (resolveReference rootSchema reference) value := by
  have hdisjoint : assertionKeywords.all
      (fun keyword => !(annotations ++ [points "$ref"]).contains keyword) = true := by
    decide +kernel
  have habsent : ∀ keyword, points keyword ∈ assertionKeywords →
      schema.lookup (points keyword) = none := by
    intro keyword hkeyword
    rw [List.lookup_eq_none_iff]
    intro member hmember
    rw [bne_iff_ne]
    intro heq
    have hfresh := List.all_eq_true.mp hdisjoint _ hkeyword
    rw [heq, List.contains_iff_mem.mpr (hkeywords member hmember)] at hfresh
    cases hfresh
  constructor
  · rintro (_ | ⟨_, htarget, _, _⟩)
    exact htarget reference hreference
  · intro hvalid
    refine .keywords ?_ ?_ ?_ ?_
    · constructor <;> simp [habsent, assertionKeywords]
    · intro other hother
      rw [hreference] at hother
      exact Option.some.inj hother ▸ hvalid
    · simp [habsent, assertionKeywords]
    · simp [propertiesOf, habsent, assertionKeywords]

/-- On a supported schema the validator decides validity. -/
theorem jsonSchemaViolations_decides {fuel : Nat} {schema : Json}
    (h : JsonSchema.supported rootSchema fuel schema = true) :
    (jsonSchemaViolations rootSchema fuel value schema location).Decides
      (Valid .host rootSchema schema value) := by
  induction fuel generalizing value schema location with
  | zero => cases h
  | succ fuel ih =>
      cases schema with
      | dict schema =>
          rw [JsonSchema.supported] at h
          rw [jsonSchemaViolations]
          cases hlookup : schema.lookup (points "$ref") with
          | none =>
              rw [hlookup] at h
              refine checkNode_decides h ?_ hlookup fun child value location hchild => ih hchild
              cases fuel <;> rfl
          | some reference =>
              rw [hlookup, Bool.and_eq_true, List.all_eq_true] at h
              obtain ⟨hkeywords, htarget⟩ := h
              have hiff : Valid .host rootSchema (resolveReference rootSchema reference) value ↔
                  Valid .host rootSchema (.dict schema) value :=
                (valid_reference_iff hlookup fun member hmember =>
                  List.contains_iff_mem.mp (hkeywords member hmember)).symm
              have hdecides := (@ih value location _ htarget).congr hiff
              cases hresolved : resolveReference rootSchema reference with
              | null =>
                  rw [hresolved] at htarget
                  cases fuel <;> cases htarget
              | _ =>
                  rw [hresolved] at hdecides
                  dsimp only
                  rw [hresolved]
                  exact hdecides
      | _ => cases h

end JsonSchema

end Oasi
