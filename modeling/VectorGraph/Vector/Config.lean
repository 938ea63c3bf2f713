/-! The shape of a vector index, in the 64-bit form in which it is exchanged. -/
namespace VectorGraph

structure VectorConfig where
  dimension : UInt64 := 128
  capacity : UInt64 := 1024
deriving DecidableEq

end VectorGraph
