import EnergyTables.Family.VertexCovering
import EnergyTables.Proofs.Codec
import EnergyTables.Proofs.Search.Enumeration

namespace EnergyTables

open Flavor

namespace Value

end Value

namespace Flavor

variable {flavors : List Value} {value : Value}

variable {values : List Value} {positions : List Nat}

end Flavor

namespace Problem

variable {problem : Problem} {configuration id : Value} {wholes : List Int}

theorem configurationId_eq {values : List Value} {given : Nat} (counted : configuration.length = .ok given)
    (listed : configuration.items = .ok values) (sameLength : (given : Int) = problem.variableCount) :
    problem.configurationId configuration = values.mapM (position problem.flavors) := by
  rw [configurationId, counted, Outcome.ok_bind, if_neg (not_not_intro sameLength), listed]
  rfl

end Problem

end EnergyTables
