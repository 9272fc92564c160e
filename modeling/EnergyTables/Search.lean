import EnergyTables.Evaluation

namespace EnergyTables

namespace Search

def vectors {α : Type} (positions : List α) : (count : Nat) → List (List α)
  | 0 => [[]]
  | count + 1 =>
    let rest := vectors positions count
    positions.flatMap fun position => rest.map (position :: ·)

structure Best where
  energy : Option Value
  ids : List Value

/-- A lower energy replaces the ids, an equal one joins them. -/
def Best.improve (best : Best) (id energy : Value) : Outcome Best :=
  match best.energy with
  | none => .ok ⟨some energy, [id]⟩
  | some least => do
    if ← energy.less least then return ⟨some energy, [id]⟩
    if ← energy.equal least then return ⟨some least, id :: best.ids⟩
    return best

def best (energy : Value → Outcome Value) (ids : List Value) : Outcome Best :=
  ids.foldlM (fun best id => do best.improve id (← energy id)) ⟨none, []⟩

def defaultLimit : Int := 1048576

/-- A product of so many factors has more positions than memory has places. -/
def repeatLimit : Int := (1 <<< 60 : Nat)

def power (base exponent : Nat) : Nat := if base ≤ 1 ∧ exponent ≠ 0 then base else base.pow exponent

/-- The number of configurations; a negative number of variables makes a fraction of one. -/
def stateCount (flavorCount : Nat) (variableCount : Int) : Outcome Value :=
  if 0 ≤ variableCount then .ok (.int (power flavorCount variableCount.toNat))
  else if flavorCount = 0 then .error .divisionByZero
  else .ok (.float (.ofRatio .double false 1 (power flavorCount (-variableCount).toNat)))

end Search

structure SearchResult where
  configurations : List (List Value)
  states : Value
  leastEnergy : Option Value
  tables : Problem.Tables

namespace Problem

def checkStates (problem : Problem) (limit : Value) : Outcome Value := do
  let states ← Search.stateCount problem.flavorCount problem.variableCount
  if ← limit.less states then refuse (.tooManyStates states limit)
  if problem.variableCount < 0 then throw .invalid
  -- from two flavors on, so many variables have more states than a number can count
  if problem.flavorCount ≤ 1 ∧ Search.repeatLimit ≤ problem.variableCount then throw .tooLarge
  return states

def allIds (problem : Problem) : List Value :=
  let positions := (List.range problem.flavorCount).map fun (index : Nat) => Value.int (index + 1)
  (Search.vectors positions problem.variableCount.toNat).map .list

def bruteForce (problem : Problem) (limit : Value) : Outcome SearchResult := do
  let states ← problem.checkStates limit
  let tables ← problem.tables
  let kind ← problem.energyKind
  let best ← Search.best (energyById tables.terms · (some kind)) problem.allIds
  let configurations ← best.ids.reverse.mapM problem.configurationOf
  return ⟨configurations, states, best.energy, tables⟩

/-- Every configuration of least energy, in the lexicographic order of the ids. A space with more states than the limit
    is refused before any table is made. -/
def findBest (problem : Problem) (limit : Value) : Outcome (List (List Value)) := do
  return (← problem.bruteForce limit).configurations

end Problem

namespace Report

def compiled (problem : Problem) (tables : Problem.Tables) : String :=
  s!"DEBUG: Compiled {tables.terms.length} energy terms " ++
    s!"({tables.hard.length} hard, {tables.soft.length} soft) for {problem.className}"

def searched (problem : Problem) (result : SearchResult) : String :=
  let least := (result.leastEnergy.map Value.display).getD "None"
  s!"INFO: Brute force over {result.states.display} states of {problem.className}: " ++
    s!"best energy {least} ({result.configurations.length} configurations)"

end Report

end EnergyTables
