import EnergyTables.Value.Text

namespace EnergyTables

/-- Why a request has no answer. The first group are conditions of the library, each with a text that quotes the
    values at fault; the second group, from `unsupported` on, are operations that a value does not admit and that carry
    no text. -/
inductive Fault where
  | unknownFlavor (value : Value) (flavors : List Value)
  | positionOutside (position : Value) (flavorCount : Nat)
  | variablePositionOutside (position : Value) (variableIndex : Int) (flavorCount : Nat)
  | flavorsNotTwo (flavorCount : Nat)
  | notALogicalFlavor (flavors : List Value) (flavor : Value)
  | colorsNotPositive (colors : Value)
  | paletteMismatch (className : String) (paletteSize : Nat) (colors : Value)
  | configurationLength (given : Nat) (holder : String) (expected : Int) (unit : String)
  | arity (given : Nat) (scope : List Int)
  | repeatedVariables (scope : List Int)
  | variableOutside (variableIndex : Int) (variableCount : Int)
  | vertexNumbering (vertexCount : Nat) (vertices : List Value)
  | weightCount (unit : String) (expected : Int) (given : Nat)
  | matrixNotSquare (shape : List Nat)
  | matrixShape (expected given : List Nat)
  | weightNotANumber (weight : Value)
  | tooManyStates (states : Value) (limit : Value)
  | noHardConstraints (className : String)
  | negativeUnitWeight (length : Value)
  | unitWeightIndex (index : Value) (length : Value)
  | unknownMethod (typeName : String)
  | unsupported
  | invalid
  | indexOutOfRange
  | tooLarge
  | absentPart
  | divisionByZero
  | decimalInvalid
  | decimalOverflow

namespace Fault

def listText (values : List Int) : String := Text.bracketed (values.map toString)

def shapeText (shape : List Nat) : String := Text.parenthesised (shape.map toString)

def message? : Fault → Option String
  | unknownFlavor value flavors =>
    some s!"value {value.quoted} is not one of the flavors {(Value.tuple flavors).quoted}"
  | positionOutside position flavorCount =>
    some s!"flavor position {position.display} outside [1, {flavorCount}]"
  | variablePositionOutside position variableIndex flavorCount =>
    some s!"flavor position {position.display} of variable {variableIndex} outside [1, {flavorCount}]"
  | flavorsNotTwo flavorCount => some s!"the number of flavors must be 2, got: {flavorCount}"
  | notALogicalFlavor flavors flavor =>
    some s!"the flavor must be one of the flavors {(Value.tuple flavors).quoted}, got: {flavor.quoted}"
  | colorsNotPositive colors => some s!"num_colors must be positive, got {colors.display}"
  | paletteMismatch className paletteSize colors =>
    some s!"{className} has {paletteSize} colors, got num_colors={colors.display}"
  | configurationLength given holder expected unit =>
    some s!"configuration has {given} values, {holder} has {expected} {unit}"
  | arity given scope =>
    some s!"local configuration has {given} values, constraint on {listText scope} expects {scope.length}"
  | repeatedVariables scope => some s!"constraint variables must be unique, got {listText scope}"
  | variableOutside variableIndex variableCount =>
    some s!"constraint variable {variableIndex} outside [1, {variableCount}]"
  | vertexNumbering vertexCount vertices =>
    some s!"graph vertices must be 1..{vertexCount}, got {(Value.list vertices).quoted}"
  | weightCount unit expected given =>
    some s!"length of weights must be equal to the number of {unit} {expected}, got: {given}"
  | matrixNotSquare shape => some s!"QUBO matrix must be square, got shape {shapeText shape}"
  | matrixShape expected given =>
    some s!"QUBO weights must have shape {shapeText expected}, got {shapeText given}"
  | weightNotANumber weight => some s!"weights must be numbers, got {weight.typeName}: {weight.quoted}"
  | tooManyStates states limit =>
    some s!"{states.display} states exceed the brute force limit of {limit.display}"
  | noHardConstraints className => some s!"{className} declares no hard constraints"
  | negativeUnitWeight length => some s!"UnitWeight length must be non-negative, got {length.display}"
  | unitWeightIndex index length =>
    some s!"UnitWeight index {index.display} out of range for length {length.display}"
  | unknownMethod typeName => some s!"unsupported search method {typeName}"
  | unsupported | invalid | indexOutOfRange | tooLarge | absentPart | divisionByZero | decimalInvalid
  | decimalOverflow => none

def isWritable : Fault → Bool
  | unknownFlavor value flavors | notALogicalFlavor flavors value => value.isWritable && Value.areWritable flavors
  | positionOutside position _ => position.isWritable
  | variablePositionOutside position variableIndex _ => position.isWritable && Numeral.writes variableIndex
  | colorsNotPositive colors | paletteMismatch _ _ colors => colors.isWritable
  | configurationLength _ _ expected _ | weightCount _ expected _ => Numeral.writes expected
  | arity _ scope | repeatedVariables scope => scope.all Numeral.writes
  | variableOutside variableIndex variableCount => Numeral.writes variableIndex && Numeral.writes variableCount
  | vertexNumbering _ vertices => Value.areWritable vertices
  | weightNotANumber weight => weight.isWritable
  | tooManyStates states limit => states.isWritable && limit.isWritable
  | negativeUnitWeight length => length.isWritable
  | unitWeightIndex index length => index.isWritable && length.isWritable
  | _ => true

/-- The fault that comes of raising one: a text with an integer beyond the limit of digits is never finished, and
    that is an invalid operation of its own. -/
@[irreducible] def stated (fault : Fault) : Fault := if fault.isWritable then fault else invalid

def ofDecimal : DecimalSignal → Fault
  | .invalidOperation => decimalInvalid
  | .overflow => decimalOverflow

end Fault

abbrev Outcome (α : Type) := Except Fault α

def refuse {α : Type} (fault : Fault) : Outcome α := .error fault.stated

@[simp] theorem Fault.stated_of_isWritable {fault : Fault} (writable : fault.isWritable = true) : fault.stated = fault := by
  rw [stated, if_pos writable]

end EnergyTables
