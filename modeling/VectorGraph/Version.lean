/-! The version of the library. -/
namespace VectorGraph

def version : String := "0.1.0"

end VectorGraph
