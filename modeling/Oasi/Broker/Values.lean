import Oasi.Foundation.Sha256

/-! # Values of database columns

SQLite keeps a value of any kind in a column, whatever type the table declares: an
INTEGER column turns a number into an integer where it can, a TEXT column turns a number
into text, and everything else is left as it is. Python reads the kinds as `int`, `float`,
`str` and `bytes`. A TEXT is taken to be UTF-8. No column of the ledger that is read may be
NULL but the receipt digest.
-/

namespace Oasi.Broker

/-- Exceptions of the ledger, of its database and of the file system. -/
inductive Raised where
  /-- `ProtocolError(message)` -/
  | protocol (message : String)
  /-- `sqlite3.IntegrityError` -/
  | integrity
  /-- `sqlite3.OperationalError(message)` -/
  | operational (message : String)
  /-- `TypeError` -/
  | typeError
  | fileNotFound
  /-- An error that the environment causes: a full disk, a lock timeout. -/
  | fault
  deriving DecidableEq, Repr

/-- A finite float that stays a REAL in an INTEGER column, as the shortest decimal
`digits * 10 ^ exponent` that Python prints for it. Zero and the integers of 64 bits are
stored as integers. -/
structure StoredReal where
  negative : Bool
  digits : Nat
  exponent : Int
  shortest : digits % 10 ≠ 0
  kept : exponent < 0 ∨ 2 ^ 63 ≤ digits * 10 ^ exponent.toNat
  deriving DecidableEq, Repr

namespace StoredReal

/-- The digits with the decimal point behind the first `point` of them. -/
def fixed (digits : List Char) (point : Int) : List Char :=
  if point ≤ 0 then '0' :: '.' :: List.replicate (-point).toNat '0' ++ digits
  else if digits.length ≤ point then
    digits ++ List.replicate (point - digits.length).toNat '0' ++ ['.', '0']
  else digits.take point.toNat ++ '.' :: digits.drop point.toNat

/-- One digit before the decimal point, and an exponent of at least two digits. -/
def scientific (digits : List Char) (exponent : Int) : List Char :=
  let fraction := if digits.length = 1 then [] else '.' :: digits.drop 1
  let power := exponent.natAbs.repr.toList
  digits.take 1 ++ fraction ++ ['e', if exponent < 0 then '-' else '+'] ++
    List.replicate (2 - power.length) '0' ++ power

/-- `repr(value)` -/
def repr (value : StoredReal) : String :=
  let digits := value.digits.repr.toList
  let point := digits.length + value.exponent
  String.ofList ((if value.negative then ['-'] else []) ++
    if -4 < point ∧ point ≤ 16 then fixed digits point else scientific digits (point - 1))

/-- `value > 1` -/
def exceedsOne (value : StoredReal) : Bool :=
  !value.negative && (0 ≤ value.exponent || 10 ^ (-value.exponent).toNat < value.digits)

end StoredReal

/-- What a column holds. -/
inductive StoredValue where
  | integer (value : Int)
  | real (value : StoredReal)
  /-- The REAL values `inf` and `-inf` -/
  | infinite (negative : Bool)
  | text (value : String)
  | blob (value : Bytes)
  deriving DecidableEq, Repr

/-! ## Canonical JSON -/

/-- One character of `json.dumps` with `ensure_ascii`. -/
def escapeAscii (char : Char) : String :=
  if char = '"' then "\\\""
  else if char = '\\' then "\\\\"
  else if char = '\n' then "\\n"
  else if char = '\r' then "\\r"
  else if char = '\t' then "\\t"
  else if char = '\x0c' then "\\f"
  else if char = '\x08' then "\\b"
  else if 32 ≤ char.toNat ∧ char.toNat ≤ 126 then String.singleton char
  else if char.toNat < 0x10000 then "\\u" ++ paddedHex 4 char.toNat
  else "\\u" ++ paddedHex 4 (0xd800 + (char.toNat - 0x10000) / 1024) ++
    "\\u" ++ paddedHex 4 (0xdc00 + (char.toNat - 0x10000) % 1024)

def jsonString (value : String) : String :=
  value.toList.foldl (fun out char => out ++ escapeAscii char) "\"" ++ "\""

namespace StoredValue

/-- `json.dumps(value)`, which knows no bytes. -/
def json : StoredValue → Except Raised String
  | integer value => .ok value.repr
  | real value => .ok value.repr
  | infinite negative => .ok (if negative then "-Infinity" else "Infinity")
  | text value => .ok (jsonString value)
  | blob _ => .error .typeError

/-! ## Python's view of a value -/

/-- One byte in `repr(value)`. -/
def byteRepr (quote : Char) (byte : UInt8) : List Char :=
  let char := Char.ofNat byte.toNat
  if char = quote ∨ char = '\\' then ['\\', char]
  else if char = '\t' then ['\\', 't']
  else if char = '\n' then ['\\', 'n']
  else if char = '\r' then ['\\', 'r']
  else if 32 ≤ byte ∧ byte < 127 then [char]
  else '\\' :: 'x' :: (paddedHex 2 byte.toNat).toList

/-- `repr(value)` of bytes -/
def bytesRepr (bytes : Bytes) : String :=
  let quote := Char.ofNat (if 39 ∈ bytes ∧ 34 ∉ bytes then 34 else 39)
  String.ofList ('b' :: quote :: bytes.flatMap (byteRepr quote) ++ [quote])

/-- `str(value)` -/
def str : StoredValue → String
  | integer value => value.repr
  | real value => value.repr
  | infinite negative => if negative then "-inf" else "inf"
  | text value => value
  | blob value => bytesRepr value

/-- `not value` -/
def isFalsy : StoredValue → Bool
  | integer value => value == 0
  | real _ | infinite _ => false
  | text value => value.isEmpty
  | blob value => value.isEmpty

/-- `value < 0 or value > 1`, which only numbers can be asked. -/
def outOfRange : StoredValue → Except Raised Bool
  | integer value => .ok (value < 0 || value > 1)
  | real value => .ok (value.negative || value.exceedsOne)
  | infinite _ => .ok true
  | text _ | blob _ => .error .typeError

/-- The values that are neither below zero nor above one. -/
inductive InRange : StoredValue → Prop where
  | zero : InRange (integer 0)
  | one : InRange (integer 1)
  | between (value : StoredReal) (hpositive : value.negative = false)
      (hfraction : value.exponent < 0) (hbelow : value.digits < 10 ^ (-value.exponent).toNat) :
      InRange (real value)

theorem inRange_integer_iff {value : Int} : InRange (integer value) ↔ value = 0 ∨ value = 1 := by
  constructor
  · intro h
    cases h with
    | zero => exact .inl rfl
    | one => exact .inr rfl
  · rintro (rfl | rfl)
    · exact .zero
    · exact .one

/-- A REAL is never a power of ten. -/
theorem StoredReal.digits_ne_pow {value : StoredReal} (h : value.exponent < 0) :
    value.digits ≠ 10 ^ (-value.exponent).toNat := by
  obtain ⟨power, hpower⟩ := Nat.exists_eq_succ_of_ne_zero
    (by omega : (-value.exponent).toNat ≠ 0)
  intro hdigits
  apply value.shortest
  rw [hdigits, hpower, Nat.pow_succ, Nat.mul_mod_left]

theorem outOfRange_eq_false {value : StoredValue} :
    value.outOfRange = .ok false ↔ value.InRange := by
  cases value with
  | integer value =>
      rw [inRange_integer_iff, outOfRange, Except.ok.injEq, Bool.or_eq_false_iff,
        decide_eq_false_iff_not, decide_eq_false_iff_not]
      omega
  | real value =>
      simp only [outOfRange, StoredReal.exceedsOne, Except.ok.injEq, Bool.or_eq_false_iff]
      constructor
      · rintro ⟨hpositive, habove⟩
        simp only [hpositive, Bool.not_false, Bool.true_and, Bool.or_eq_false_iff,
          decide_eq_false_iff_not, Int.not_le, Nat.not_lt] at habove
        obtain ⟨hfraction, hbelow⟩ := habove
        exact .between value hpositive hfraction
          (Nat.lt_of_le_of_ne hbelow (StoredReal.digits_ne_pow hfraction))
      · intro h
        cases h with
        | between _ hpositive hfraction hbelow =>
            refine ⟨hpositive, ?_⟩
            simp [hpositive, hfraction, Nat.le_of_lt hbelow]
  | infinite negative =>
      rw [outOfRange]
      exact iff_of_false (by simp) fun h => by cases h
  | text value =>
      rw [outOfRange]
      exact iff_of_false (by simp) fun h => by cases h
  | blob value =>
      rw [outOfRange]
      exact iff_of_false (by simp) fun h => by cases h

/-- A half stays a REAL, and no check of the range objects to it. -/
example : outOfRange (real ⟨false, 5, -1, by decide, .inl (by decide)⟩) = .ok false := by decide

end StoredValue

end Oasi.Broker
