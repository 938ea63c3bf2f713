/-!
The capacities of a graph and its counters, in the 64-bit form in which they are exchanged.
-/
namespace VectorGraph

structure GraphConfig where
  nodeCapacity : UInt64 := 1024
  edgeCapacity : UInt64 := 4096
  propertyCapacity : UInt64 := 1024
deriving DecidableEq

structure Statistics where
  nodeCount : UInt64
  edgeCount : UInt64
  propertyCount : UInt64
  nodeCapacity : UInt64
  edgeCapacity : UInt64
  propertyCapacity : UInt64
deriving DecidableEq, Inhabited

end VectorGraph
