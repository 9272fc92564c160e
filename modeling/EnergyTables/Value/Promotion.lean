import EnergyTables.Fault

namespace EnergyTables

namespace IntFormat

def realFormat (format : IntFormat) : BinaryFormat :=
  match format.bits with
  | 8 => .half
  | 16 => .single
  | _ => .double

def signedAbove? : IntFormat → Option IntFormat
  | uint8 => some int16
  | uint16 => some int32
  | uint32 => some int64
  | _ => none

def join (left right : IntFormat) : Storage :=
  if left.signed = right.signed then
    .word (if left.bits < right.bits then right else left)
  else
    let (signed, unsigned) := if left.signed then (left, right) else (right, left)
    if unsigned.bits < signed.bits then .word signed
    else match unsigned.signedAbove? with
      | some format => .word format
      | none => .real .double

end IntFormat

namespace Storage

def join : Storage → Storage → Storage
  | object, _ | _, object => object
  | flag, other | other, flag => other
  | word left, word right => left.join right
  | word left, real right | real right, word left => real (right.join left.realFormat)
  | word left, pair right | pair right, word left => pair (right.join left.realFormat)
  | real left, real right => real (left.join right)
  | real left, pair right | pair right, real left => pair (right.join left)
  | pair left, pair right => pair (left.join right)

@[simp] theorem join_self (storage : Storage) : storage.join storage = storage := by
  cases storage with
  | word format => cases format <;> rfl
  | real format => cases format <;> rfl
  | pair format => cases format <;> rfl
  | flag => rfl
  | object => rfl

theorem join_comm (left right : Storage) : left.join right = right.join left := by
  cases left <;> cases right <;> try rfl
  all_goals rename_i left right; cases left <;> cases right <;> rfl

/-- Where a plain number of the kind given meets this storage. -/
def joinPlain (storage : Storage) (kind : Kind) : Storage :=
  match storage, kind with
  | object, _ => object
  | storage, .bool => storage
  | flag, .int => word .int64
  | storage, .int => storage
  | flag, .float | word _, .float => real .double
  | storage, .float => storage
  | flag, .complex | word _, .complex => pair .double
  | real format, .complex => pair (format.join .single)
  | storage, .complex => storage
  | _, _ => object

def ofNumber : Number → Storage
  | .bool _ | .flag _ => flag
  | .int value =>
    if IntFormat.int64.Holds value then word .int64
    else if IntFormat.uint64.Holds value then word .uint64
    else object
  | .float _ => real .double
  | .complex _ => pair .double
  | .fraction _ | .quotient .. | .decimal _ => object
  | .word format _ => word format
  | .real format _ => real format
  | .pair format _ => pair format

def ofNumbers : List Number → Storage
  | [] => real .double
  | first :: rest => rest.foldl (fun storage number => storage.join (ofNumber number)) (ofNumber first)

end Storage

namespace Number

def meeting (left right : Number) : Storage :=
  match left.storage?, right.storage? with
  | some left, some right => left.join right
  | some left, none => left.joinPlain right.kind
  | none, some right => right.joinPlain left.kind
  | none, none => .object

end Number

end EnergyTables
