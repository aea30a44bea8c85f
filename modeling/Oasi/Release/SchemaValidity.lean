import Oasi.Release.JsonSchema

/-! # Validity under a schema

What the keywords assert, each on its own, as the standard has it. Where host languages
read a keyword differently the reading is a parameter: the closing anchor of a pattern,
the numbers that are integers, and the values that compare as numbers. For the schemas
that keep to the subset, the validator decides validity in the dialect of its host.
-/

namespace Oasi

namespace JsonSchema

structure Dialect where
  /-- What `$` accepts as the rest of the text. -/
  atEnd : Text → Bool
  /-- Whether a number with a fraction or an exponent can be an integer. -/
  integral : FloatValue → Bool
  /-- The values that compare as numbers. -/
  number : Json → Option FloatValue

def Dialect.host : Dialect where
  atEnd := Pattern.beforeFinalLineFeed
  integral := fun _ => false
  number := Json.numericValue

/-- An integer is a number without a fraction, and a truth value is no number. -/
def Dialect.standard : Dialect where
  atEnd := Pattern.wholeText
  integral
    | .finite value => value.den == 1
    | .infinite _ => false
  number
    | .bool _ => none
    | value => value.numericValue

def Dialect.HasType (dialect : Dialect) (name : Text) : Json → Prop
  | .null => name = points "null"
  | .bool _ => name = points "boolean"
  | .int _ => name = points "integer" ∨ name = points "number"
  | .float value =>
      (name = points "integer" ∧ dialect.integral value = true) ∨ name = points "number"
  | .str _ => name = points "string"
  | .list _ => name = points "array"
  | .dict _ => name = points "object"

/-- The pattern is found somewhere in the text. -/
def Dialect.Matches (dialect : Dialect) (pattern text : Text) : Prop :=
  ∃ items, Pattern.parse pattern = some items ∧ Pattern.search dialect.atEnd items text = true

/-- The schemas of the named members. -/
def propertiesOf (schema : Members) : Members :=
  match schema.lookup (points "properties") with
  | some (.dict properties) => properties
  | _ => []

/-- The assertions that look at the value and not below it. -/
structure Assertions (dialect : Dialect) (schema : Members) (value : Json) : Prop where
  type : ∀ name, schema.lookup (points "type") = some (.str name) → dialect.HasType name value
  enum : ∀ options, schema.lookup (points "enum") = some (.list options) →
    ∃ option ∈ options, option.equalBy dialect.number value = true
  minLength : ∀ minimum text, schema.lookup (points "minLength") = some (.int minimum) →
    value = .str text → minimum ≤ text.length
  pattern : ∀ pattern text, schema.lookup (points "pattern") = some (.str pattern) →
    value = .str text → dialect.Matches pattern text
  minItems : ∀ minimum items, schema.lookup (points "minItems") = some (.int minimum) →
    value = .list items → minimum ≤ items.length
  required : ∀ names members, schema.lookup (points "required") = some (.list names) →
    value = .dict members → ∀ name, .str name ∈ names → name ∈ members.map Prod.fst
  additionalProperties : ∀ members,
    schema.lookup (points "additionalProperties") = some (.bool false) → value = .dict members →
      ∀ name ∈ members.map Prod.fst, name ∈ (propertiesOf schema).map Prod.fst

/-- A value is valid when each keyword of the schema holds of it. -/
inductive Valid (dialect : Dialect) (rootSchema : Json) : Json → Json → Prop where
  | anything {value : Json} : Valid dialect rootSchema (.bool true) value
  | keywords {schema : Members} {value : Json}
      (assertions : Assertions dialect schema value)
      (target : ∀ reference, schema.lookup (points "$ref") = some reference →
        Valid dialect rootSchema (resolveReference rootSchema reference) value)
      (items : ∀ itemSchema items item, schema.lookup (points "items") = some itemSchema →
        value = .list items → item ∈ items → Valid dialect rootSchema itemSchema item)
      (properties : ∀ property members member, property ∈ propertiesOf schema →
        value = .dict members → members.lookup property.1 = some member →
          Valid dialect rootSchema property.2 member) :
      Valid dialect rootSchema (.dict schema) value

/-! ## The subset -/

/-- They assert nothing. -/
def annotations : List Text := ["$schema", "$id", "title", "$defs"].map points

def assertionKeywords : List Text :=
  ["type", "enum", "minLength", "pattern", "minItems", "items", "required", "properties",
    "additionalProperties"].map points

/-- Whether a keyword is absent or its parameter is as expected. -/
def parameterIs (schema : Members) (keyword : String) (expected : Json → Bool) : Bool :=
  (schema.lookup (points keyword)).all expected

/-- The schema keeps to the keywords of the validator, with parameters of their types. -/
def supportedNode (supported : Json → Bool) (schema : Members) : Bool :=
  schema.all (fun member => (annotations ++ assertionKeywords).contains member.1) &&
  parameterIs schema "type" (fun name => name matches .str _) &&
  parameterIs schema "enum" (fun options => options matches .list _) &&
  parameterIs schema "minLength" (fun minimum => minimum matches .int _) &&
  parameterIs schema "pattern" (fun pattern =>
    match pattern with
    | .str pattern => (Pattern.parse pattern).isSome
    | _ => false) &&
  parameterIs schema "minItems" (fun minimum => minimum matches .int _) &&
  parameterIs schema "items" supported &&
  parameterIs schema "required" (fun required =>
    match required with
    | .list names => names.all fun name => (name matches .str _)
    | _ => false) &&
  parameterIs schema "properties" (fun properties =>
    match properties with
    | .dict properties => properties.all fun property => supported property.2
    | _ => false) &&
  parameterIs schema "additionalProperties" (fun additional => additional matches .bool _)

/-- Beside a reference there are annotations only. -/
def supported (rootSchema : Json) : Nat → Json → Bool
  | 0, _ => false
  | fuel + 1, .dict schema =>
      match schema.lookup (points "$ref") with
      | some reference =>
          schema.all (fun member => (annotations ++ [points "$ref"]).contains member.1) &&
            supported rootSchema fuel (resolveReference rootSchema reference)
      | none => supportedNode (supported rootSchema fuel) schema
  | _ + 1, _ => false

end JsonSchema

end Oasi
