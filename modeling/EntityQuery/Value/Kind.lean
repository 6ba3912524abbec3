import EntityQuery.Number.Scientific
import EntityQuery.Value.Basic
import EntityQuery.Text.Blank

/-!
# Scalar kinds

A `Kind` is the type of a scalar member. It tells which values the member can hold, how a value of
a neighbouring variant is converted without loss, and how raw text is read.

* `Kind.accepts` — the values of a kind.
* `Kind.coerce?` — the lossless conversion of a value into the kind.
* `Kind.parse?` — the value a text denotes.
* `Kind.zero` — the value of an untouched member.
-/

namespace EntityQuery

/-- The families of kinds, which decide on the operators of a member. -/
inductive Category where
  | integral
  | floating
  | text
  | boolean
  | temporal
  | other
  deriving DecidableEq, Repr

/-- Numbers. -/
def Category.isNumeric : Category → Bool
  | .integral | .floating => true
  | _ => false

/-- The widths of integers. -/
inductive Width where
  | w8
  | w16
  | w32
  | w64
  deriving DecidableEq, Repr

/-- The number of bits of a width. -/
def Width.bits : Width → Nat
  | .w8 => 8
  | .w16 => 16
  | .w32 => 32
  | .w64 => 64

/-- The kinds of scalar members. An enumeration carries the names of its variants. -/
inductive Kind where
  | bool
  | signed (w : Width)
  | unsigned (w : Width)
  | single
  | double
  | decimal
  | text
  | date
  | dateTime
  | timestamp
  | time
  | uuid
  | enum (name : String) (variants : List String)
  deriving DecidableEq, Repr

namespace Kind

/-- The family of a kind. -/
def category : Kind → Category
  | .signed _ | .unsigned _ => .integral
  | .single | .double | .decimal => .floating
  | .text => .text
  | .bool => .boolean
  | .date | .dateTime | .timestamp | .time => .temporal
  | .uuid | .enum .. => .other

/-- The name under which the type of a kind is declared. -/
def name : Kind → String
  | .bool => "bool"
  | .signed .w8 => "i8"
  | .signed .w16 => "i16"
  | .signed .w32 => "i32"
  | .signed .w64 => "i64"
  | .unsigned .w8 => "u8"
  | .unsigned .w16 => "u16"
  | .unsigned .w32 => "u32"
  | .unsigned .w64 => "u64"
  | .single => "f32"
  | .double => "f64"
  | .decimal => "Decimal"
  | .text => "String"
  | .date => "NaiveDate"
  | .dateTime => "NaiveDateTime"
  | .timestamp => "DateTime<Utc>"
  | .time => "NaiveTime"
  | .uuid => "Uuid"
  | .enum name _ => name

/-- The value of an untouched member. An enumeration starts with its first variant; one without
variants has no value but null. -/
def zero : Kind → Value
  | .bool => .bool false
  | .signed _ => .int 0
  | .unsigned _ => .uint 0
  | .single | .double => .float .zero
  | .decimal => .decimal .zero
  | .text => .text ""
  | .date => .date .epoch
  | .dateTime => .dateTime .epoch
  | .timestamp => .timestamp .epoch
  | .time => .time .midnight
  | .uuid => .uuid .nil
  | .enum _ variants =>
    match variants with
    | [] => .null
    | first :: _ => .enum first

/-! ### Values of a kind -/

/-- Whether an integer fits a signed width. -/
def fitsSigned (w : Width) (i : Int) : Bool :=
  decide (-(2 ^ (w.bits - 1) : Int) ≤ i) && decide (i < (2 ^ (w.bits - 1) : Int))

/-- Whether a number fits an unsigned width. -/
def fitsUnsigned (w : Width) (n : Int) : Bool := decide (0 ≤ n) && decide (n < (2 ^ w.bits : Int))

/-- Whether a floating-point number is inside the range of the narrow format; infinities and
undefined numbers are. -/
def fitsSingle (x : Binary64) : Bool := decide (x.units ≤ Binary64.largestSingle)

/-- The values of a kind. -/
def accepts : Kind → Value → Bool
  | .bool, .bool _ => true
  | .signed w, .int i => fitsSigned w i.toInt
  | .unsigned w, .uint n => fitsUnsigned w n.toNat
  | .single, .float x => fitsSingle x
  | .double, .float _ => true
  | .decimal, .decimal _ => true
  | .text, .text _ => true
  | .date, .date _ => true
  | .dateTime, .dateTime _ => true
  | .timestamp, .timestamp _ => true
  | .time, .time _ => true
  | .uuid, .uuid _ => true
  | .enum _ variants, .enum name => variants.contains name
  | _, _ => false

/-- Whether a member of this kind can hold a value; a nullable one can hold null. -/
def assignable (k : Kind) (nullable : Bool) (v : Value) : Bool :=
  if v.isNull then nullable else k.accepts v

/-! ### Reading -/

/-- Whether two texts agree up to the case of ASCII letters. -/
def sameAscii (a b : List Char) : Bool := a.map Char.toLower == b.map Char.toLower

/-- Read a truth value in words or digits. -/
def parseBool? (cs : List Char) : Option Bool :=
  match String.ofList (cs.map Char.toLower) with
  | "true" | "1" | "yes" => some true
  | "false" | "0" | "no" => some false
  | _ => none

/-- Read a finite floating-point number. -/
def parseFloat? (cs : List Char) : Option Binary64 := (Binary64.ofText? cs).filter (·.isFinite)

/-- The value of this kind that a text denotes. Blanks around it do not count, except for texts. -/
def parse? (k : Kind) (raw : String) : Option Value :=
  let cs := trim raw.toList
  match k with
  | .text => some (.text raw)
  | .bool => (parseBool? cs).map .bool
  | .signed w => (readSigned? cs).bind fun i =>
      if fitsSigned w i then some (.int (Int64.ofInt i)) else none
  | .unsigned w => (readUnsigned? cs).bind fun n =>
      if fitsUnsigned w n then some (.uint (UInt64.ofNat n)) else none
  | .single => (parseFloat? cs).bind fun x => if fitsSingle x then some (.float x) else none
  | .double => (parseFloat? cs).map .float
  | .decimal => (Decimal.ofText? cs).map .decimal
  | .date => (Date.ofText? cs).map .date
  | .dateTime => (DateTime.ofText? cs).map .dateTime
  | .timestamp => (DateTime.ofZoned? cs).map .timestamp
  | .time => (TimeOfDay.ofText? cs).map .time
  | .uuid => (Uuid.ofText? cs).map .uuid
  | .enum _ variants => (variants.find? fun v => sameAscii v.toList cs).map .enum

/-! ### Conversion -/

/-- The integer a value is. -/
def integer? : Value → Option Int
  | .int i => some i.toInt
  | .uint n => some n.toNat
  | _ => none

/-- Convert a value into this kind where nothing is lost; values of the kind stay as they are. -/
def coerce? (k : Kind) (v : Value) : Option Value :=
  if k.accepts v then some v
  else
    match k, v with
    | .signed w, .uint n => if fitsSigned w n.toNat then some (.int (Int64.ofNat n.toNat)) else none
    | .unsigned w, .int i =>
      if fitsUnsigned w i.toInt then some (.uint (UInt64.ofNat i.toInt.toNat)) else none
    | .single, .int i | .double, .int i => some (.float (.ofInt i.toInt))
    | .single, .uint n | .double, .uint n => some (.float (.ofNat n.toNat))
    | .decimal, .int i => some (.decimal (.ofInt64 i))
    | .decimal, .uint n => some (.decimal (.ofUInt64 n))
    | .decimal, .float x => (Decimal.ofBinary64? x).map .decimal
    | .dateTime, .date d => some (.dateTime (.ofDate d))
    | .enum name variants, .text s => (Kind.enum name variants).parse? s
    | .text, .enum s => some (.text s)
    | _, _ => none

/-- A value of the kind is its own conversion. -/
theorem coerce?_of_accepts {k : Kind} {v : Value} (h : k.accepts v = true) :
    k.coerce? v = some v := by
  simp [coerce?, h]

/-- No kind holds null. -/
@[simp] theorem accepts_null (k : Kind) : k.accepts .null = false := by
  cases k <;> rfl

end Kind

end EntityQuery
