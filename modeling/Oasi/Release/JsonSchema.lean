import Oasi.Foundation.Patterns
import Oasi.Foundation.Reports

/-! # The schema validator of the release tools

A subset of JSON Schema over decoded JSON values. The validator lists the violations it
finds in the order in which it finds them.
-/

namespace Oasi

namespace JsonSchema

/-- A string as its code points. -/
abbrev Text := List CodePoint

/-- A decoded number with a fraction or an exponent; a large one overflows. -/
inductive FloatValue where
  | finite (value : Rat)
  | infinite (negative : Bool)
  deriving DecidableEq

/-- The names of an object are distinct. Of equal names the first one counts. -/
inductive Json where
  | null
  | bool (value : Bool)
  | int (value : Int)
  | float (value : FloatValue)
  | str (text : Text)
  | list (items : List Json)
  | dict (members : List (Text × Json))

abbrev Members := List (Text × Json)

namespace Json

/-- A truth value is an `int` too. -/
def numericValue : Json → Option FloatValue
  | .bool value => some (.finite (if value then 1 else 0))
  | .int value => some (.finite value)
  | .float value => some value
  | _ => none

/-- `left == right`, where `number` says which values compare as numbers. -/
def equalBy (number : Json → Option FloatValue) : Json → Json → Bool
  | .null, .null => true
  | .bool left, .bool right => left == right
  | .str left, .str right => left == right
  | .list left, .list right => equalItems left right
  | .dict left, .dict right => left.length == right.length && equalMembers left right
  | left, right => (number left).isSome && number left == number right
where
  equalItems : List Json → List Json → Bool
    | [], [] => true
    | left :: lefts, right :: rights => equalBy number left right && equalItems lefts rights
    | _, _ => false
  equalMembers : Members → Members → Bool
    | [], _ => true
    | (name, left) :: lefts, rights =>
        (match rights.lookup name with
          | none => false
          | some right => equalBy number left right) && equalMembers lefts rights

/-- `==` of the host language. -/
def equal (left right : Json) : Bool := equalBy numericValue left right

end Json

/-- `members.get(name)` -/
def get (members : Members) (name : String) : Json :=
  (members.lookup (points name)).getD .null

/-- Why no list is returned. -/
inductive Stuck where
  /-- The model's fuel is used up. -/
  | outOfFuel
  /-- `TypeError` -/
  | typeError
  /-- The pattern is outside the fragment. -/
  | unmodelledPattern
  deriving DecidableEq

abbrev Violations := Reported Text Stuck Unit

/-- `text.replace(first + second, replacement)` -/
def replacePair (first second replacement : CodePoint) : Text → Text
  | left :: right :: rest =>
      if left = first ∧ right = second then
        replacement :: replacePair first second replacement rest
      else left :: replacePair first second replacement (right :: rest)
  | text => text

/-- The walk along the parts of a reference. -/
def followParts (current : Json) : List Text → Json
  | [] => current
  | rawPart :: parts =>
      let part := replacePair (point '~') (point '0') (point '~')
        (replacePair (point '~') (point '1') (point '/') rawPart)
      match current with
      | .dict members =>
          match members.lookup part with
          | none => .null
          | some next => followParts next parts
      | _ => .null

/-- `None` is the value `null`. -/
def resolveLocalJsonPointer (rootSchema : Json) (reference : Text) : Json :=
  if points "#/" <+: reference then
    followParts rootSchema ((reference.drop 2).splitOn (point '/'))
  else .null

/-- `type_matches` -/
def typeMatches (value : Json) : List (Text × Bool) :=
  [(points "object", value matches .dict _), (points "array", value matches .list _),
    (points "string", value matches .str _), (points "integer", value matches .int _),
    (points "number", value matches .int _ | .float _), (points "boolean", value matches .bool _),
    (points "null", value matches .null)]

/-- `value in container` -/
def containedIn (value container : Json) : Except Stuck Bool :=
  match container, value with
  | .list options, _ => .ok (options.any fun option => option.equal value)
  | .dict _, .list _ => .error .typeError
  | .dict _, .dict _ => .error .typeError
  | .dict members, .str name => .ok (members.lookup name).isSome
  | .dict _, _ => .ok false
  | .str text, .str part => .ok (text.tails.any part.isPrefixOf)
  | _, _ => .error .typeError

/-- `isinstance(minimum, int) and length < minimum` -/
def shorterThan (length : Nat) : Json → Bool
  | .int minimum => decide ((length : Int) < minimum)
  | .bool minimum => decide (length < minimum.toNat)
  | _ => false

/-- `re.search(pattern, text) is None` -/
def searchIsNone (pattern text : Text) : Except Stuck Bool :=
  match Pattern.parse pattern with
  | none => .error .unmodelledPattern
  | some items => .ok !Pattern.search Pattern.beforeFinalLineFeed items text

/-- `{location}[{index}]` -/
def itemLocation (location : Text) (index : Nat) : Text :=
  location ++ points "[" ++ (Nat.toDigits 10 index).map point ++ points "]"

/-- `{location}.{field}` -/
def fieldLocation (location field : Text) : Text := location ++ points "." ++ field

/-- `isinstance(expected_type, str) and not type_matches.get(expected_type, False)` -/
def unmatchedType (value : Json) : Json → Option Text
  | .str expected =>
      if ((typeMatches value).lookup expected).getD false = true then none else some expected
  | _ => none

def checkEnum (schema : Members) (value : Json) (location : Text) : Violations :=
  match schema.lookup (points "enum") with
  | none => pure ()
  | some options => do
      let found ← Reported.ofExcept (containedIn value options)
      Reported.noteIf (found = false) (location ++ points ": value outside enum")

def checkString (schema : Members) (text location : Text) : Violations := do
  Reported.noteIf (shorterThan text.length (get schema "minLength") = true)
    (location ++ points ": string shorter than minLength")
  match get schema "pattern" with
  | .str pattern => do
      let missing ← Reported.ofExcept (searchIsNone pattern text)
      Reported.noteIf (missing = true) (location ++ points ": string does not match pattern")
  | _ => pure ()

/-- The recursive call, on a value, a schema and a location. -/
abbrev Validator := Json → Json → Text → Violations

def checkItems (validate : Validator) (schema : Members) (items : List Json) (location : Text) :
    Violations := do
  Reported.noteIf (shorterThan items.length (get schema "minItems") = true)
    (location ++ points ": array shorter than minItems")
  match get schema "items" with
  | .null => pure ()
  | itemSchema =>
      items.zipIdx.forM fun entry => validate entry.1 itemSchema (itemLocation location entry.2)

/-- A required name that is no string is passed over. -/
def checkRequiredField (members : Members) (location : Text) : Json → Violations
  | .str field =>
      Reported.noteIf (field ∉ members.map Prod.fst)
        (location ++ points ": missing required property " ++ field)
  | _ => pure ()

def checkRequired (schema members : Members) (location : Text) : Violations :=
  match (schema.lookup (points "required")).getD (.list []) with
  | .list required => required.forM (checkRequiredField members location)
  | _ => pure ()

/-- The loop over the names of the object where `additionalProperties` is `False`. -/
def checkAdditional (schema properties members : Members) (location : Text) : Violations :=
  match get schema "additionalProperties" with
  | .bool false =>
      (members.map Prod.fst).forM fun field =>
        Reported.noteIf (field ∉ properties.map Prod.fst)
          (location ++ points ": additional property " ++ field)
  | _ => pure ()

/-- The member of a name with a schema of its own. -/
def checkProperty (validate : Validator) (members : Members) (location : Text)
    (property : Text × Json) : Violations :=
  match members.lookup property.1 with
  | none => pure ()
  | some member => validate member property.2 (fieldLocation location property.1)

def checkProperties (validate : Validator) (schema members : Members) (location : Text) :
    Violations :=
  match (schema.lookup (points "properties")).getD (.dict []) with
  | .dict properties => do
      checkAdditional schema properties members location
      properties.forM (checkProperty validate members location)
  | _ => pure ()

/-- The checks of a schema without a reference. -/
def checkNode (validate : Validator) (value : Json) (schema : Members) (location : Text) :
    Violations :=
  match unmatchedType value (get schema "type") with
  | some expected => Reported.note (location ++ points ": expected type " ++ expected)
  | none => do
      checkEnum schema value location
      match value with
      | .str text => checkString schema text location
      | .list items => checkItems validate schema items location
      | .dict members => do
          checkRequired schema members location
          checkProperties validate schema members location
      | _ => pure ()

/-- The target of `$ref`; `None` is the value `null`. -/
def resolveReference (rootSchema : Json) : Json → Json
  | .str reference => resolveLocalJsonPointer rootSchema reference
  | _ => .null

def jsonSchemaViolations (rootSchema : Json) : Nat → Validator
  | 0, _, _, _ => Reported.ofExcept (.error .outOfFuel)
  | fuel + 1, value, .dict schema, location =>
      match schema.lookup (points "$ref") with
      | some reference =>
          match resolveReference rootSchema reference with
          | .null => Reported.note (location ++ points ": unresolved local schema reference")
          | target => jsonSchemaViolations rootSchema fuel value target location
      | none => checkNode (jsonSchemaViolations rootSchema fuel) value schema location
  | _ + 1, _, _, location => Reported.note (location ++ points ": schema node is not an object")

end JsonSchema

end Oasi
