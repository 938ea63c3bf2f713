import VectorGraph.Binary

/-!
The squared Euclidean distance of two vectors in single precision, summed from the first component on.
-/
namespace VectorGraph

abbrev Vec := Array Binary32

def Binary32.squaredGap (x y : Binary32) : Binary32 := (x.sub y).mul (x.sub y)

/-- Over the common length. The sum starts at `-0.0`, which is neutral; a NaN sum counts as infinitely far. -/
def squaredL2 (a b : Vec) : Binary32 :=
  let sum := (Array.zipWith Binary32.squaredGap a b).foldl Binary32.add .negativeZero
  if sum.isNaN then .infinity else sum

end VectorGraph
