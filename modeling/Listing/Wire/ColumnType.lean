namespace Listing.Wire

inductive ColumnType
  | bool
  | int2
  | int4
  | int8
  | oid
  | float4
  | float8
  | numeric
  | text
  | varchar
  | bpchar
  | name
  | unknown
  | uuid
  | date
  | time
  | timestamp
  | timestamptz
  | json
  | jsonb
  | textArray
  | varcharArray
  | int4Array
  | int8Array
  | other (name : String)
  deriving DecidableEq, Repr

def ColumnType.ofName : String → ColumnType
  | "bool" => bool
  | "int2" => int2
  | "int4" => int4
  | "int8" => int8
  | "oid" => oid
  | "float4" => float4
  | "float8" => float8
  | "numeric" => numeric
  | "text" => text
  | "varchar" => varchar
  | "bpchar" => bpchar
  | "name" => name
  | "unknown" => unknown
  | "uuid" => uuid
  | "date" => date
  | "time" => time
  | "timestamp" => timestamp
  | "timestamptz" => timestamptz
  | "json" => json
  | "jsonb" => jsonb
  | "_text" => textArray
  | "_varchar" => varcharArray
  | "_int4" => int4Array
  | "_int8" => int8Array
  | s => other s

inductive ColumnKind
  | bool
  | int (width : Nat)
  | oid
  | single
  | double
  | numeric
  | text
  | uuid
  | date
  | time
  | timestamp
  | timestampUtc
  /-- With a version before the text, or without one. -/
  | json (versioned : Bool)
  | textArray
  | intArray (width : Nat)
  | other
  deriving DecidableEq, Repr

def ColumnType.kind : ColumnType → ColumnKind
  | bool => .bool
  | int2 => .int 2
  | int4 => .int 4
  | int8 => .int 8
  | oid => .oid
  | float4 => .single
  | float8 => .double
  | numeric => .numeric
  | text | varchar | bpchar | name | unknown => .text
  | uuid => .uuid
  | date => .date
  | time => .time
  | timestamp => .timestamp
  | timestamptz => .timestampUtc
  | json => .json false
  | jsonb => .json true
  | textArray | varcharArray => .textArray
  | int4Array => .intArray 4
  | int8Array => .intArray 8
  | other _ => .other

def jsonVersion : UInt8 := 1

def treeTypes : List String := ["ltree", "lquery", "ltxtquery"]

def treeVersion : UInt8 := 1

end Listing.Wire
