import EnergyTables.Number.Complex
import EnergyTables.Number.IntFormat

namespace EnergyTables

inductive Storage
  | flag
  | word (format : IntFormat)
  | real (format : BinaryFormat)
  | pair (format : BinaryFormat)
  | object
deriving DecidableEq, Repr

inductive Kind
  | none | bool | int | float | complex | fraction | decimal
  | text | list | tuple | mapping | unitWeight | array
  | stored (storage : Storage)
deriving DecidableEq, Repr

/-- A number is either plain, of unbounded size or of the widest precision, or stored: held in the fixed format that an
    array gives it. -/
inductive Number where
  | bool (value : Bool)
  | int (value : Int)
  | float (value : Binary .double)
  | complex (value : Complex .double)
  | fraction (value : Rat)
  | quotient (format : IntFormat) (value : WordRatio format)
  | decimal (value : Decimal)
  | flag (value : Bool)
  | word (format : IntFormat) (value : Word format)
  | real (format : BinaryFormat) (value : Binary format)
  | pair (format : BinaryFormat) (value : Complex format)
deriving DecidableEq

inductive Value where
  | none
  | text (characters : String)
  | number (value : Number)
  | list (items : List Value)
  | tuple (items : List Value)
  /-- As many ones as its length says, none of them held. -/
  | unitWeight (length : Number)
  | array (storage : Storage) (shape : List Nat) (writeable : Bool) (entries : List Value)

namespace IntFormat

def name : IntFormat → String
  | int8 => "int8" | int16 => "int16" | int32 => "int32" | int64 => "int64"
  | uint8 => "uint8" | uint16 => "uint16" | uint32 => "uint32" | uint64 => "uint64"

end IntFormat

namespace BinaryFormat

def realName : BinaryFormat → String
  | half => "float16" | single => "float32" | double => "float64"

def pairName : BinaryFormat → String
  | half => "complex32" | single => "complex64" | double => "complex128"

end BinaryFormat

namespace Storage

def name : Storage → String
  | flag => "bool_"
  | word format => format.name
  | real format => format.realName
  | pair format => format.pairName
  | object => "object_"

def all : List Storage :=
  [flag, word .int8, word .int16, word .int32, word .int64, word .uint8, word .uint16, word .uint32,
   word .uint64, real .half, real .single, real .double, pair .single, pair .double, object]

end Storage

namespace Kind

def name : Kind → String
  | none => "NoneType" | bool => "bool" | int => "int" | float => "float" | complex => "complex"
  | fraction => "Fraction" | decimal => "Decimal" | text => "str" | list => "list" | tuple => "tuple"
  | mapping => "dict" | unitWeight => "UnitWeight" | array => "ndarray"
  | stored storage => storage.name

def all : List Kind :=
  [none, bool, int, float, complex, fraction, decimal, text, list, tuple, mapping, unitWeight, array] ++
    Storage.all.map stored

def ofName? (name : String) : Option Kind := all.find? (·.name = name)

end Kind

namespace Number

def ofInt (value : Int) : Number := .int value

def ofWord (format : IntFormat) (value : Int) : Number := .word format (.wrap format value)

def kind : Number → Kind
  | bool _ => .bool
  | int _ => .int
  | float _ => .float
  | complex _ => .complex
  | fraction _ | quotient .. => .fraction
  | decimal _ => .decimal
  | flag _ => .stored .flag
  | word format _ => .stored (.word format)
  | real format _ => .stored (.real format)
  | pair format _ => .stored (.pair format)

def storage? (number : Number) : Option Storage :=
  match number.kind with
  | .stored storage => some storage
  | _ => none

def toPlain : Number → Number
  | flag value => bool value
  | word _ value => int value.val
  | real _ value => float (value.convert .double)
  | pair _ value => complex (value.convert .double)
  | plain => plain

end Number

namespace Value

def int (value : Int) : Value := .number (.int value)

def bool (value : Bool) : Value := .number (.bool value)

def float (value : Binary .double) : Value := .number (.float value)

def fraction (value : Rat) : Value := .number (.fraction value)

instance : Inhabited Value := ⟨.none⟩

def kind : Value → Kind
  | .none => .none
  | text _ => .text
  | number value => value.kind
  | list _ => .list
  | tuple _ => .tuple
  | unitWeight _ => .unitWeight
  | array .. => .array

end Value

end EnergyTables
