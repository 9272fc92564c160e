import EnergyTables.Proofs.Evaluation.Safety
import EnergyTables.Proofs.Evaluation.Headroom
import EnergyTables.Proofs.Search.FeasibleFirst
import EnergyTables.Proofs.Qubo.Coefficients
import EnergyTables.Proofs.Accounts
import EnergyTables.Proofs.Codec.RoundTrips
import EnergyTables.Proofs.Selection.LightEnds
import EnergyTables.Proofs.Selection.Complements
import EnergyTables.Proofs.Selection.IncidentEdges
import EnergyTables.Proofs.Graph.InsertionOrder
import EnergyTables.Proofs.Interchange.Families
import EnergyTables.Proofs.Weights.Updates
import EnergyTables.Proofs.Evaluation.StrayVariables
import EnergyTables.Proofs.Qubo.NormalForm
import EnergyTables.Proofs.Selection.Gains
import EnergyTables.Proofs.Scopes
import EnergyTables.Proofs.Value.MixedIntegers
import EnergyTables.Proofs.Selection.Representations
import EnergyTables.Proofs.Qubo.StrayKeys
import EnergyTables.Proofs.Value.Slices
import EnergyTables.Proofs.Weights.Ones
