import EnergyTables.Proofs.Evaluation.Refinement
import EnergyTables.Proofs.Tables.WordTables

namespace EnergyTables

open Flavor

def Constraint.Reads (flavorCount : Nat) (numbers : List Int) (index : Int) : Prop :=
  ∃ (place : Nat) (position : Int), index = place + 1 ∧ numbers[place]? = some position ∧
    1 ≤ position ∧ position ≤ flavorCount

namespace Constraint

end Constraint

namespace Term

open Constraint

variable {id : Value} {numbers : List Int} {index : Int} {flavorCount : Nat}

end Term

open Term Constraint

namespace Problem

end Problem

end EnergyTables
