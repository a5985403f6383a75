import Listing.Calendar.Reader
import Listing.Filter
import Listing.Json.Writer
import Listing.Text.Utf8
import Listing.Wire.ColumnType
import Listing.Wire.Numeric
import Listing.Wire.Uuid

namespace Listing.Wire

open Number

/-- Why a value cannot be written as a type. -/
inductive EncodingProblem
  | notInteger (problem : IntegerProblem)
  | outOfRange (problem : IntegerProblem)
  | notNumber (problem : FloatProblem)
  | notBool
  | notDecimal
  | notUuid
  | notWhole (x : Double)
  | notMoment (s : String)
  | list
  deriving DecidableEq, Repr

def EncodingProblem.message? : EncodingProblem → Option String
  | notInteger problem | outOfRange problem => some problem.message
  | notNumber problem => some problem.message
  | notBool => some "provided string was not `true` or `false`"
  | notDecimal | notUuid => none
  | notWhole x => some (x.text ++ " is not an integer")
  | notMoment s => some ("'" ++ s ++ "' is not a date or timestamp")
  | list => some "list parameter reached the driver"

abbrev Encoding := Except EncodingProblem Bytes

def encodeBool (b : Bool) : Bytes := [if b then 1 else 0]

def encodeRanged (width : Nat) (low high i : Int) : Encoding :=
  if i < low then .error (.outOfRange .tooSmall)
  else if high < i then .error (.outOfRange .tooLarge)
  else .ok (ofInt width i)

def maxOid : Int := 0xffffffff

def singleOfInt (i : Int) : Nat :=
  Format.binary32.signed (i < 0) (Format.binary32.round i.natAbs 1)

def encodeInt (t : ColumnType) (i : Int) : Encoding :=
  match t with
  | .int2 => encodeRanged 2 minShort maxShort i
  | .int4 => encodeRanged 4 minInt maxInt i
  | .oid => encodeRanged 4 0 maxOid i
  | .float4 => .ok (ofNat 4 (singleOfInt i))
  | .float8 => .ok (ofNat 8 (Double.ofInt i).bits.toNat)
  | .numeric => .ok (Numeric.ofInt i).toBytes
  | .bool => .ok (encodeBool (i ≠ 0))
  | .text | .varchar | .bpchar | .name => .ok (Text.utf8 (toString i))
  | _ => .ok (ofInt 8 i)

def clampLong (i : Int) : Int := max minLong (min maxLong i)

def encodeWhole (t : ColumnType) (x : Double) : Encoding :=
  match x.toInt? with
  | some i => encodeInt t (clampLong i)
  | none => .error (.notWhole x)

def encodeFloat (t : ColumnType) (x : Double) : Encoding :=
  match t with
  | .float4 => .ok (ofNat 4 x.toSingleBits)
  | .int2 | .int4 | .int8 => encodeWhole t x
  | .numeric =>
    match Numeric.ofDouble? x with
    | some d => .ok d.toBytes
    | none => .error .notDecimal
  | .text | .varchar | .bpchar => .ok (Text.utf8 x.text)
  | _ => .ok (ofNat 8 x.bits.toNat)

def readInteger (width : Nat) (low high : Int) (s : String) : Encoding :=
  match readInt low high s.toList with
  | .ok i => .ok (ofInt width i)
  | .error problem => .error (.notInteger problem)

def readFloat (width : Nat) (f : Format) (s : String) : Encoding :=
  match f.ofText s.toList with
  | .ok bits => .ok (ofNat width bits)
  | .error problem => .error (.notNumber problem)

def readMoment (measure : Calendar.Moment → Bytes) (s : String) : Encoding :=
  match Calendar.momentOf? s with
  | some m => .ok (measure m)
  | none => .error (.notMoment s)

/-- Microseconds of universal time. A moment with an offset is looked for first, and then any. -/
def readUtc (s : String) : Encoding :=
  match Calendar.offsetOf? s with
  | some m => .ok (ofInt 8 m.toMicros)
  | none => readMoment (fun m ↦ ofInt 8 m.toMicros) s

theorem readUtc_eq (s : String) : readUtc s = readMoment (fun m ↦ ofInt 8 m.toMicros) s := by
  rw [readUtc, readMoment, Calendar.momentOf?]
  cases Calendar.offsetOf? s <;> rfl

def jsonText (s : String) : Bytes := Text.utf8 (Json.render (.text s))

def encodeText (t : ColumnType) (s : String) : Encoding :=
  match t with
  | .int2 => readInteger 2 minShort maxShort s
  | .int4 => readInteger 4 minInt maxInt s
  | .int8 => readInteger 8 minLong maxLong s
  | .float4 => readFloat 4 .binary32 s
  | .float8 => readFloat 8 .binary64 s
  | .numeric =>
    match Numeric.ofText? s with
    | some d => .ok d.toBytes
    | none => .error .notDecimal
  | .bool =>
    if s = "true" then .ok (encodeBool true)
    else if s = "false" then .ok (encodeBool false)
    else .error .notBool
  | .uuid =>
    match Uuid.ofText? s with
    | some bytes => .ok bytes
    | none => .error .notUuid
  | .date => readMoment (fun m ↦ ofInt 4 m.day) s
  | .timestamp => readMoment (fun m ↦ ofInt 8 m.toMicros) s
  | .timestamptz => readUtc s
  | .json => .ok (jsonText s)
  | .jsonb => .ok (jsonVersion :: jsonText s)
  | _ => .ok (Text.utf8 s)

def encode (t : ColumnType) : FilterValue → Except EncodingProblem (Option Bytes)
  | .null => .ok none
  | .bool b =>
    match t with
    | .text | .varchar => .ok (some (Text.utf8 (if b then "true" else "false")))
    | _ => .ok (some (encodeBool b))
  | .int i => (encodeInt t i).map some
  | .float x => (encodeFloat t x).map some
  | .text s => (encodeText t s).map some
  | .list _ => .error .list

end Listing.Wire
