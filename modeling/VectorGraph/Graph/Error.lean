import VectorGraph.Arena

/-! Why a graph refuses a request. -/
namespace VectorGraph

inductive GraphError where
  | nodeNotFound (id : NodeId)
  | edgeNotFound (id : EdgeId)
  | propertyNotFound (id : PropertyId)
  | invalidSource (id : NodeId)
  | invalidTarget (id : NodeId)
  | capacityExhausted (kind : Kind)
  | invalidCapacity (kind : Kind) (cause : ArenaError)
deriving DecidableEq

def GraphError.message : GraphError → String
  | nodeNotFound id => "Node " ++ id.text ++ " not found"
  | edgeNotFound id => "Edge " ++ id.text ++ " not found"
  | propertyNotFound id => "Property " ++ id.text ++ " not found"
  | invalidSource id => "Invalid edge: source node " ++ id.text ++ " does not exist"
  | invalidTarget id => "Invalid edge: target node " ++ id.text ++ " does not exist"
  | capacityExhausted kind => kind.name ++ " capacity exhausted"
  | invalidCapacity kind cause => "Invalid " ++ kind.name ++ " capacity: " ++ cause.message

end VectorGraph
