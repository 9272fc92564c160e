import EnergyTables.Proofs.Evaluation.Refinement
import EnergyTables.Proofs.Search.Minimisers

namespace EnergyTables

open Flavor

namespace Value

end Value

namespace Flavor

end Flavor

namespace Problem

end Problem

end EnergyTables
