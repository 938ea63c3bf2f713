import VectorGraph.Id

/-! Why a vector index refuses a request. -/
namespace VectorGraph

inductive VectorError where
  | zeroDimension
  | zeroCapacity
  | dimensionMismatch (expected got : Nat)
  | nullId
  | capacityExhausted (capacity : Nat)
  | notFound (id : Id)
  | allocationFailed (capacity dimension : Nat)
deriving DecidableEq

def VectorError.message : VectorError → String
  | zeroDimension => "Vector dimension must be greater than zero"
  | zeroCapacity => "Vector index capacity must be greater than zero"
  | dimensionMismatch expected got =>
    "Dimension mismatch: expected " ++ toString expected ++ ", got " ++ toString got
  | nullId => "The null id cannot be indexed"
  | capacityExhausted capacity => "Vector index full (" ++ toString capacity ++ " slots)"
  | notFound id => "No vector stored for " ++ id.text
  | allocationFailed capacity dimension =>
    "Cannot allocate " ++ toString capacity ++ " vectors of dimension " ++ toString dimension

end VectorGraph
