/-! Where buffers come from. Whether there is memory for one is up to the allocator. -/
namespace VectorGraph

/-- The answer to a request for a buffer, by the bytes that are held already and the bytes it asks for. -/
structure Allocator where
  grants : (held bytes : Nat) → Bool

namespace Allocator

/-- All buffers together stay within the lower half of a 48-bit address space. -/
def addressSpace : Allocator := ⟨fun held bytes => held + bytes < 0x800000000000⟩

/-- The most bytes that a signed 64-bit length can tell. -/
def longest : Nat := Int64.maxValue.toNatClampNeg

/-- An allocator is not asked for a longer buffer than that. -/
def reserves (a : Allocator) (held bytes : Nat) : Bool := bytes ≤ longest && a.grants held bytes

end Allocator

end VectorGraph
