import VectorGraph.Graph.Config
import VectorGraph.Vector.Config

/-! The shape of a graph together with its vector index, and the names under which its numbers are given. -/
namespace VectorGraph

structure Config where
  graph : GraphConfig := {}
  vector : VectorConfig := {}
deriving DecidableEq

/-- A number of a record under its name. -/
structure Setting (α : Type) where
  name : String
  get : α → UInt64
  set : UInt64 → α → α

def GraphConfig.settings : List (Setting GraphConfig) := [
  ⟨"node_capacity", (·.nodeCapacity), fun n c => { c with nodeCapacity := n }⟩,
  ⟨"edge_capacity", (·.edgeCapacity), fun n c => { c with edgeCapacity := n }⟩,
  ⟨"property_capacity", (·.propertyCapacity), fun n c => { c with propertyCapacity := n }⟩]

def VectorConfig.settings : List (Setting VectorConfig) := [
  ⟨"dimension", (·.dimension), fun n c => { c with dimension := n }⟩,
  ⟨"capacity", (·.capacity), fun n c => { c with capacity := n }⟩]

end VectorGraph
