import VectorGraph.Id
import VectorGraph.Binary

/-!
The records of a graph. A node holds the ends of its two edge lists, and an edge its place in both of the
lists it is on: the outgoing list of its source and the incoming list of its target.
-/
namespace VectorGraph

inductive Direction where
  | outgoing
  | incoming
deriving DecidableEq

def Direction.title : Direction → String
  | outgoing => "Outgoing"
  | incoming => "Incoming"

/-- The ends of an edge list, absent when it is empty. -/
structure Ends where
  first : Option EdgeId := none
  last : Option EdgeId := none
deriving DecidableEq, Inhabited

/-- The neighbours of an edge within an edge list. -/
structure Links where
  previous : Option EdgeId := none
  next : Option EdgeId := none
deriving DecidableEq, Inhabited

structure Node where
  id : NodeId
  outgoing : Ends := {}
  incoming : Ends := {}
deriving DecidableEq, Inhabited

namespace Node

def ends (n : Node) : Direction → Ends
  | .outgoing => n.outgoing
  | .incoming => n.incoming

def modifyEnds (n : Node) (f : Ends → Ends) : Direction → Node
  | .outgoing => { n with outgoing := f n.outgoing }
  | .incoming => { n with incoming := f n.incoming }

def first (n : Node) (d : Direction) : Option EdgeId := (n.ends d).first

def last (n : Node) (d : Direction) : Option EdgeId := (n.ends d).last

def setFirst (n : Node) (d : Direction) (e : Option EdgeId) : Node :=
  n.modifyEnds ({ · with first := e }) d

def setLast (n : Node) (d : Direction) (e : Option EdgeId) : Node :=
  n.modifyEnds ({ · with last := e }) d

def isIsolated (n : Node) : Bool := n.outgoing.first.isNone && n.incoming.first.isNone

end Node

structure Edge where
  id : EdgeId
  source : NodeId
  target : NodeId
  label : UInt64
  weight : Binary64
  timestamp : UInt64
  outgoing : Links := {}
  incoming : Links := {}
deriving DecidableEq, Inhabited

namespace Edge

/-- The node whose list in this direction the edge is on. -/
def owner (e : Edge) : Direction → NodeId
  | .outgoing => e.source
  | .incoming => e.target

def opposite (e : Edge) : Direction → NodeId
  | .outgoing => e.target
  | .incoming => e.source

def isLoop (e : Edge) : Bool := e.source == e.target

def links (e : Edge) : Direction → Links
  | .outgoing => e.outgoing
  | .incoming => e.incoming

def modifyLinks (e : Edge) (f : Links → Links) : Direction → Edge
  | .outgoing => { e with outgoing := f e.outgoing }
  | .incoming => { e with incoming := f e.incoming }

def previous (e : Edge) (d : Direction) : Option EdgeId := (e.links d).previous

def next (e : Edge) (d : Direction) : Option EdgeId := (e.links d).next

def setPrevious (e : Edge) (d : Direction) (other : Option EdgeId) : Edge :=
  e.modifyLinks ({ · with previous := other }) d

def setNext (e : Edge) (d : Direction) (other : Option EdgeId) : Edge :=
  e.modifyLinks ({ · with next := other }) d

end Edge

/-- A number under a key. The owner is a note of any handle and is not checked against the graph. -/
structure Property where
  id : PropertyId
  owner : Id
  key : UInt64
  value : Binary64
deriving DecidableEq, Inhabited

def Property.isOwnedBy (p : Property) (owner : Id) : Bool := p.owner == owner

end VectorGraph
