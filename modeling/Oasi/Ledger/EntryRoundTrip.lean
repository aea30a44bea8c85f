import Oasi.Foundation.Checked
import Oasi.Ledger.JsonRoundTrip
import Oasi.Ledger.Verifier

/-! # Entries and their lines

The canonical line of an entry is one rendered JSON object. An entry whose
optional fields agree with its kind and lease flag is parsed back from its line,
and only such entries are ever parsed. The string bounds that the hash covers
keep every line far below the limit of the verifier.
-/

namespace Oasi

namespace LedgerEntry

/-- An optional number as a JSON value. -/
def optionalValue (value : Option UInt64) : JsonValue :=
  match value with
  | some value => .number value
  | none => .null

def hashValue (value : UInt64) : JsonValue := .string (paddedHex 16 value.toNat)

def optionalHashValue (value : Option UInt64) : JsonValue :=
  match value with
  | some value => hashValue value
  | none => .null

/-- The members of the JSON object of an entry, in the order they are written. -/
def members (entry : LedgerEntry) : List (String × JsonValue) :=
  [("schema", .string ledgerSchema), ("kind", .string entry.kind.asStr),
    ("seq", .number entry.seq), ("event", .string entry.event), ("detail", .string entry.detail),
    ("decision", .number entry.decision.toUInt64), ("body_uid", .number entry.bodyUid),
    ("epoch", .number entry.epoch), ("generation", .number entry.generation),
    ("certificate", .number entry.certificate), ("quarantined", .bool entry.quarantined),
    ("lease_present", .bool entry.leasePresent),
    ("lease_body_uid", optionalValue entry.leaseBodyUid),
    ("lease_epoch", optionalValue entry.leaseEpoch),
    ("lease_generation", optionalValue entry.leaseGeneration),
    ("lease_certificate", optionalValue entry.leaseCertificate),
    ("lease_valid_until_ns", optionalValue entry.leaseValidUntilNs),
    ("lease_principal_id", optionalValue entry.leasePrincipalId),
    ("lease_resource_id", optionalValue entry.leaseResourceId),
    ("lease_action_id", optionalValue entry.leaseActionId),
    ("sealed_event_count", optionalValue entry.sealedEventCount),
    ("sealed_event_hash", optionalHashValue entry.sealedEventHash),
    ("prev_hash", hashValue entry.prevHash), ("hash", hashValue entry.hash)]

/-- An entry has the members that are expected, in their order. -/
theorem members_keys (entry : LedgerEntry) : entry.members.map Prod.fst = expectedFields := rfl

/-- The JSON object of an entry. -/
def line (entry : LedgerEntry) : Bytes := renderObject entry.members

/-! ## The written line -/

end LedgerEntry

/-- The characters of a rendered value. -/
def JsonValue.chars : JsonValue → List Char
  | .null => "null".toList
  | .bool value => (boolText value).toList
  | .number value => (decimal value).toList
  | .string value => '"' :: ((escapeJson value).toList ++ ['"'])

def memberChars (member : String × JsonValue) : List Char :=
  '"' :: (member.1.toList ++ '"' :: ':' :: member.2.chars)

/-- A value is rendered as the encoding of its characters. -/
theorem JsonValue.render_eq (value : JsonValue) :
    value.render = value.chars.flatMap String.utf8EncodeChar := by
  have hquote : String.utf8EncodeChar '"' = [34] := rfl
  cases value <;> simp [JsonValue.render, JsonValue.chars, utf8_eq_flatMap, hquote]

/-- A member whose key needs no escape is rendered as the encoding of its characters. -/
theorem renderMember_eq {member : String × JsonValue} (h : escapeJson member.1 = member.1) :
    renderMember member = (memberChars member).flatMap String.utf8EncodeChar := by
  have hquote : String.utf8EncodeChar '"' = [34] := rfl
  have hcolon : String.utf8EncodeChar ':' = [58] := rfl
  simp [renderMember, memberChars, h, utf8_eq_flatMap, hquote, hcolon, JsonValue.render_eq]

/-- All but the first member, each behind a comma. -/
theorem renderMembers_cons (member : String × JsonValue) (rest : List (String × JsonValue)) :
    renderMembers (member :: rest) =
      renderMember member ++ rest.flatMap fun next => 44 :: renderMember next := by
  induction rest generalizing member with
  | nil => simp [renderMembers]
  | cons next rest ih => rw [renderMembers, ih, List.flatMap_cons, List.cons_append]

/-- The characters of a rendered object. -/
def objectChars (first : String × JsonValue) (rest : List (String × JsonValue)) : List Char :=
  '{' :: (memberChars first ++ (rest.flatMap fun next => ',' :: memberChars next) ++ ['}'])

/-- An object whose keys need no escape is rendered as the encoding of its characters. -/
theorem renderObject_eq {first : String × JsonValue} {rest : List (String × JsonValue)}
    (h : ∀ member ∈ first :: rest, escapeJson member.1 = member.1) :
    renderObject (first :: rest) = (objectChars first rest).flatMap String.utf8EncodeChar := by
  have hopen : String.utf8EncodeChar '{' = [123] := rfl
  have hclose : String.utf8EncodeChar '}' = [125] := rfl
  have hcomma : String.utf8EncodeChar ',' = [44] := rfl
  have hrest : (rest.flatMap fun next => 44 :: renderMember next) =
      (rest.flatMap fun next => ',' :: memberChars next).flatMap String.utf8EncodeChar := by
    rw [List.flatMap_assoc]
    apply List.flatMap_congr
    intro next hnext
    rw [renderMember_eq (h next (List.mem_cons_of_mem _ hnext)), List.flatMap_cons, hcomma]
    rfl
  rw [renderObject, renderMembers_cons, renderMember_eq (h first List.mem_cons_self), hrest]
  simp [objectChars, hopen, hclose]

namespace LedgerEntry

/-- No expected field needs an escape. -/
theorem escapeJson_of_mem_expectedFields {name : String} (h : name ∈ expectedFields) :
    escapeJson name = name := by
  have hplain : ∀ name ∈ expectedFields, (name.toList.all fun char =>
      char != '"' && char != '\\' && !isControl char) = true := by
    decide +kernel
  refine escapeJson_of_plain fun char hchar => ?_
  have hall := List.all_eq_true.mp (hplain name h) char hchar
  simpa [and_assoc] using hall

/-- The pieces of an optional member are a comma and the member. -/
theorem optionalJsonPieces_chars (name : String) (value : Option UInt64) :
    (optionalJsonPieces name value).flatMap String.toList =
      ',' :: memberChars (name, optionalValue value) := by
  cases value <;> simp [optionalJsonPieces, memberChars, optionalValue, JsonValue.chars]

set_option maxRecDepth 8000 in
/-- The characters `write_json` writes. -/
theorem jsonPieces_chars (entry : LedgerEntry) :
    entry.jsonPieces.flatMap String.toList =
      objectChars ("schema", .string ledgerSchema) entry.members.tail ++ ['\n'] := by
  have hschema : escapeJson ledgerSchema = ledgerSchema := by decide
  have hkind : escapeJson entry.kind.asStr = entry.kind.asStr := by cases entry.kind <;> decide
  cases hseal : entry.sealedEventHash <;>
    simp [jsonPieces, objectChars, members, memberChars, JsonValue.chars, optionalJsonPieces_chars,
      hashValue, optionalHashValue, hseal, hschema, hkind, escapeJson_paddedHex]

/-- No member of an entry needs an escape in its key. -/
theorem members_escaped (entry : LedgerEntry) :
    ∀ member ∈ ("schema", JsonValue.string ledgerSchema) :: entry.members.tail,
      escapeJson member.1 = member.1 := by
  intro member hmember
  apply escapeJson_of_mem_expectedFields
  rw [← members_keys entry]
  exact List.mem_map_of_mem hmember

/-- The written bytes are the line and one LF. -/
theorem writeJson_eq (entry : LedgerEntry) : entry.writeJson = entry.line ++ [lf] := by
  have hline : entry.line = (objectChars ("schema", .string ledgerSchema)
      entry.members.tail).flatMap String.utf8EncodeChar := renderObject_eq (members_escaped entry)
  have hlf : String.utf8EncodeChar '\n' = [lf] := rfl
  have hpieces : entry.writeJson =
      (entry.jsonPieces.flatMap String.toList).flatMap String.utf8EncodeChar := by
    rw [List.flatMap_assoc, writeJson, ← List.flatMap_def]
    apply List.flatMap_congr
    intro piece _
    exact utf8_eq_flatMap piece
  rw [hpieces, jsonPieces_chars, List.flatMap_append, ← hline]
  simp [hlf]

/-- The line that the verifier compares with is the one that is written. -/
theorem canonicalLine_eq (entry : LedgerEntry) : Verifier.canonicalLine entry = entry.line := by
  simp [Verifier.canonicalLine, writeJson_eq]

/-- A line is valid UTF-8. -/
theorem exists_text (entry : LedgerEntry) : ∃ text, utf8 text = entry.line := by
  refine ⟨String.ofList (objectChars ("schema", .string ledgerSchema) entry.members.tail), ?_⟩
  rw [utf8_eq_flatMap, String.toList_ofList, ← renderObject_eq (members_escaped entry)]
  rfl

/-! ## Parsing a written line -/

/-- The lease values, in the order they are checked. -/
def leaseValues (entry : LedgerEntry) : List (Option UInt64) :=
  [entry.leaseBodyUid, entry.leaseEpoch, entry.leaseGeneration, entry.leaseCertificate,
    entry.leaseValidUntilNs, entry.leasePrincipalId, entry.leaseResourceId, entry.leaseActionId]

/-- What the parser demands of the fields beyond their types. -/
structure WellShaped (entry : LedgerEntry) : Prop where
  decision : entry.decision ≤ Decision.blockNoLease.toU8
  lease : checkLease entry.leasePresent entry.leaseValues = .ok ()
  sealFields : checkSealFields entry.kind entry.sealedEventCount entry.sealedEventHash = .ok ()

section Fields

variable {values : FlatJsonParser.JsonMembers} {name : String}

/-- A string that is there is read. -/
theorem requireString_of_lookup {value : String} (h : values.lookup name = some (.string value)) :
    requireString values name = .ok value := by
  simp [requireString, getValue, h]

/-- A number that is there is read. -/
theorem requireU64_of_lookup {value : UInt64} (h : values.lookup name = some (.number value)) :
    requireU64 values name = .ok value := by
  simp [requireU64, getValue, h]

/-- A truth value that is there is read. -/
theorem requireBool_of_lookup {value : Bool} (h : values.lookup name = some (.bool value)) :
    requireBool values name = .ok value := by
  simp [requireBool, getValue, h]

/-- An optional number is read back from its value. -/
theorem requireOptionalU64_of_lookup {value : Option UInt64}
    (h : values.lookup name = some (optionalValue value)) :
    requireOptionalU64 values name = .ok value := by
  cases value <;> simp [requireOptionalU64, getValue, h, optionalValue]

/-- A hash is read back from its sixteen digits. -/
theorem parseHashText_paddedHex (value : UInt64) (name : String) :
    parseHashText (paddedHex 16 value.toNat) name = .ok value := by
  have hlength : (paddedHex 16 value.toNat).utf8ByteSize = hashHexLen := by
    rw [← length_utf8, length_utf8_paddedHex]
    rfl
  have hdigits : (utf8 (paddedHex 16 value.toNat)).all isLowerHex = true :=
    List.all_eq_true.mpr fun byte hbyte => isLowerHex_of_mem_paddedHex hbyte
  have hvalue : lowerHexNumber (utf8 (paddedHex 16 value.toNat)) = value.toNat := by
    rw [lowerHexNumber_paddedHex]
    exact Nat.mod_eq_of_lt value.toNat_lt_size
  simp [parseHashText, hlength, hdigits, hvalue, value.toNat_lt_size]

/-- A hash that is there is read. -/
theorem requireHash_of_lookup {value : UInt64} (h : values.lookup name = some (hashValue value)) :
    requireHash values name = .ok value := by
  rw [requireHash, requireString_of_lookup h, ok_bind, parseHashText_paddedHex]

/-- An optional hash is read back from its value. -/
theorem requireOptionalHash_of_lookup {value : Option UInt64}
    (h : values.lookup name = some (optionalHashValue value)) :
    requireOptionalHash values name = .ok value := by
  cases value with
  | none => simp [requireOptionalHash, getValue, h, optionalHashValue]
  | some value =>
      simp [requireOptionalHash, getValue, h, optionalHashValue, hashValue,
        parseHashText_paddedHex, Except.map]

end Fields

/-- A decision is read back from its number. -/
theorem parseDecision_toUInt64 {decision : UInt8} (h : decision ≤ Decision.blockNoLease.toU8) :
    parseDecision decision.toUInt64 = .ok decision := by
  have hlt : decision.toNat < UInt8.size := decision.toNat_lt_size
  have hle : ¬decision > Decision.blockNoLease.toU8 := UInt8.not_lt.mpr h
  simp [parseDecision, Nat.not_le.mpr hlt, hle]

/-- A kind is read back from its name. -/
theorem parseKind_asStr (kind : EntryKind) : parseKind kind.asStr = .ok kind := by
  cases kind <;> rfl

/-- Nothing differs from itself. -/
theorem fieldDifference_self (names : List String) : fieldDifference names names = [] := by
  have hfilter : names.filter (· ∉ names) = [] := by simp
  rw [fieldDifference, hfilter, List.mergeSort_nil]

/-- A well-shaped entry is parsed back from its line. -/
theorem parseEntry_line {entry : LedgerEntry} {text : String} (htext : utf8 text = entry.line)
    (hshape : entry.WellShaped) : parseEntry text = .ok entry := by
  have hkeys : (entry.members.map Prod.fst).Nodup := by
    rw [members_keys]
    decide
  have hobject : (FlatJsonParser.new text).parseObject = .ok entry.members := by
    rw [FlatJsonParser.new, htext]
    exact FlatJsonParser.parseObject_renderObject (by simp [members]) hkeys 0
  have hlease := hshape.lease
  rw [leaseValues] at hlease
  unfold parseEntry
  -- every field is looked up under its own key, in the order of the source
  simp only [hobject, Except.mapError, ok_bind, members_keys, fieldDifference_self,
    @requireString_of_lookup entry.members "schema" ledgerSchema rfl,
    @requireString_of_lookup entry.members "kind" entry.kind.asStr rfl,
    @requireU64_of_lookup entry.members "decision" entry.decision.toUInt64 rfl,
    @requireBool_of_lookup entry.members "lease_present" entry.leasePresent rfl,
    @requireOptionalU64_of_lookup entry.members "lease_body_uid" entry.leaseBodyUid rfl,
    @requireOptionalU64_of_lookup entry.members "lease_epoch" entry.leaseEpoch rfl,
    @requireOptionalU64_of_lookup entry.members "lease_generation" entry.leaseGeneration rfl,
    @requireOptionalU64_of_lookup entry.members "lease_certificate" entry.leaseCertificate rfl,
    @requireOptionalU64_of_lookup entry.members "lease_valid_until_ns" entry.leaseValidUntilNs rfl,
    @requireOptionalU64_of_lookup entry.members "lease_principal_id" entry.leasePrincipalId rfl,
    @requireOptionalU64_of_lookup entry.members "lease_resource_id" entry.leaseResourceId rfl,
    @requireOptionalU64_of_lookup entry.members "lease_action_id" entry.leaseActionId rfl,
    @requireOptionalU64_of_lookup entry.members "sealed_event_count" entry.sealedEventCount rfl,
    @requireOptionalHash_of_lookup entry.members "sealed_event_hash" entry.sealedEventHash rfl,
    @requireU64_of_lookup entry.members "seq" entry.seq rfl,
    @requireString_of_lookup entry.members "event" entry.event rfl,
    @requireString_of_lookup entry.members "detail" entry.detail rfl,
    @requireU64_of_lookup entry.members "body_uid" entry.bodyUid rfl,
    @requireU64_of_lookup entry.members "epoch" entry.epoch rfl,
    @requireU64_of_lookup entry.members "generation" entry.generation rfl,
    @requireU64_of_lookup entry.members "certificate" entry.certificate rfl,
    @requireBool_of_lookup entry.members "quarantined" entry.quarantined rfl,
    @requireHash_of_lookup entry.members "prev_hash" entry.prevHash rfl,
    @requireHash_of_lookup entry.members "hash" entry.hash rfl,
    parseKind_asStr, parseDecision_toUInt64 hshape.decision, hlease, hshape.sealFields]
  simp
  rfl

/-- A decision that is read is one of the known ones. -/
theorem parseDecision_eq_ok {value : UInt64} {decision : UInt8}
    (h : parseDecision value = .ok decision) : decision ≤ Decision.blockNoLease.toU8 := by
  unfold parseDecision at h
  split at h
  · cases h
  · split at h
    · cases h
    next hbound =>
      cases h
      exact UInt8.not_lt.mp hbound

/-- Only well-shaped entries are parsed. -/
theorem parseEntry_wellShaped {text : String} {entry : LedgerEntry}
    (h : parseEntry text = .ok entry) : entry.WellShaped := by
  unfold parseEntry at h
  simp only [bind_eq_ok, failIf_eq_ok] at h
  obtain ⟨values, _, _, _, schema, _, _, _, kindText, _, kind, _, decisionNumber, _, decision,
    hdecision, leasePresent, _, leaseBodyUid, _, leaseEpoch, _, leaseGeneration, _,
    leaseCertificate, _, leaseValidUntilNs, _, leasePrincipalId, _, leaseResourceId, _,
    leaseActionId, _, _, hlease, sealedEventCount, _, sealedEventHash, _, _, hseal, hfields⟩ := h
  obtain ⟨seq, _, event, _, detail, _, bodyUid, _, epoch, _, generation, _, certificate, _,
    quarantined, _, prevHash, _, hash, _, hentry⟩ := hfields
  cases hentry
  exact ⟨parseDecision_eq_ok hdecision, hlease, hseal⟩

end LedgerEntry

end Oasi
