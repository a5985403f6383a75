import Listing.Calendar.Writer
import Listing.Json.Reader
import Listing.Text.Utf8
import Listing.Wire.ColumnType
import Listing.Wire.Numeric
import Listing.Wire.Uuid

namespace Listing.Wire

open Number Calendar

def floatDatum (x : Double) : Datum := if x.isFinite then .float x else .null

def readText? (bytes : Bytes) : Option Datum := (Text.ofUtf8? bytes).map .text

def readMoment? (offset : String) (bytes : Bytes) : Option Datum := do
  let micros ← int? 8 bytes
  let s ← (Moment.ofMicros micros).text?
  some (.text (s ++ offset))

/-- Microseconds of a day; those of other days count as if they were of the same. -/
def readTime? (bytes : Bytes) : Option Datum :=
  (int? 8 bytes).map fun micros ↦ .text (Moment.ofMicros micros).time.text

def readJson? (bytes : Bytes) : Option Datum := do
  let s ← Text.ofUtf8? bytes
  let d ← Json.read s
  if d.isReadable then some d.sorted else none

def takeDimensions : Nat → Bytes → Option (List Nat × Bytes)
  | 0, bytes => some ([], bytes)
  | count + 1, bytes => do
    let (length, bytes) ← takeInt? 4 bytes
    let (_, bytes) ← takeInt? 4 bytes
    let (lengths, bytes) ← takeDimensions count bytes
    if length < 0 then none else some (length.toNat :: lengths, bytes)

def takeElements : Nat → Bytes → Option (List (Option Bytes))
  | 0, bytes => if bytes = [] then some [] else none
  | count + 1, bytes => do
    let (length, bytes) ← takeInt? 4 bytes
    if length < 0 then
      let elements ← takeElements count bytes
      some (none :: elements)
    else
      let (element, bytes) ← split? length.toNat bytes
      let elements ← takeElements count bytes
      some (some element :: elements)

def elements? (bytes : Bytes) : Option (List (Option Bytes)) := do
  let (dimensions, bytes) ← takeInt? 4 bytes
  let (_, bytes) ← takeInt? 4 bytes
  let (_, bytes) ← takeNat? 4 bytes
  if dimensions < 0 then none
  else
    let (lengths, bytes) ← takeDimensions dimensions.toNat bytes
    match lengths with
    | [] => takeElements 0 bytes
    | [length] => takeElements length bytes
    | _ => none

def readArray? (read : Bytes → Option Datum) (bytes : Bytes) : Option Datum := do
  let elements ← elements? bytes
  let items ← elements.mapM fun element ↦ element.bind read
  some (.list items)

def readInt? (width : Nat) (bytes : Bytes) : Option Datum := (int? width bytes).map .int

def ColumnKind.read? : ColumnKind → Bytes → Option Datum
  | bool, bytes => (nat? 1 bytes).map fun n ↦ .bool (n ≠ 0)
  | int width, bytes => readInt? width bytes
  | oid, bytes => (nat? 4 bytes).map fun n ↦ .int n
  | single, bytes => (nat? 4 bytes).map fun n ↦ floatDatum (.ofSingleBits n)
  | double, bytes => (nat? 8 bytes).map fun n ↦ floatDatum (.ofBits n)
  | numeric, bytes => (Numeric.ofBytes? bytes).map fun d ↦ .text d.text
  | text, bytes => readText? bytes
  | uuid, bytes => if bytes.length = 16 then some (.text (Uuid.text bytes)) else none
  | date, bytes => (int? 4 bytes).bind fun days ↦ (Date.ofDays? days).map fun d ↦ .text d.text
  | time, bytes => readTime? bytes
  | timestamp, bytes => readMoment? "" bytes
  | timestampUtc, bytes => readMoment? "+00:00" bytes
  | json false, bytes => readJson? bytes
  | json true, version :: bytes => if version = jsonVersion then readJson? bytes else none
  | json true, [] => none
  | textArray, bytes => readArray? readText? bytes
  | intArray width, bytes => readArray? (readInt? width) bytes
  | other, _ => some .null

def readTree? : Bytes → Option Datum
  | version :: bytes => if version = treeVersion then readText? bytes else none
  | [] => none

/-- The text that a value of another type can be taken for. Types that come with extensions are
known by their names. -/
def readNamed? (name : String) (bytes : Bytes) : Option Datum :=
  if name ∈ treeTypes then readTree? bytes else if name = "citext" then readText? bytes else none

/-- The value of a cell, of which a null has no bytes. What cannot be read of another type is null
too. -/
def ColumnType.read? : ColumnType → Option Bytes → Option Datum
  | _, none => some .null
  | other n, some bytes => (readNamed? n bytes).or (ColumnKind.other.read? bytes)
  | t, some bytes => t.kind.read? bytes

end Listing.Wire
