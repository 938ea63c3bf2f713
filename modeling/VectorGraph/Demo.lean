import VectorGraph.Json.Forms
import VectorGraph.Log
import VectorGraph.Version

/-!
A demonstration on six items with vectors of dimension three and four links between them. It prints the
statistics of their graph, and for every item the items most like it. Of a configuration it takes all but
the dimension. Its log goes to where it prints.
-/
namespace VectorGraph.Demo

structure Outcome where
  exitCode : UInt32
  stdout : String
  stderr : String
deriving DecidableEq

structure Item where
  name : String
  components : List Float32

structure Link where
  source : String
  target : String
  weight : Float

def dimension : UInt64 := 3

def items : List Item := [
  ⟨"alba", [0.1, 0.2, 0.3]⟩,
  ⟨"boreal", [0.2, 0.1, 0.4]⟩,
  ⟨"cetus", [0.9, 0.8, 0.7]⟩,
  ⟨"delta", [0.85, 0.75, 0.65]⟩,
  ⟨"ember", [0.3, 0.4, 0.2]⟩,
  ⟨"fjord", [0.0, 0.1, 0.0]⟩]

def links : List Link := [
  ⟨"alba", "boreal", 1.0⟩, ⟨"alba", "ember", 0.7⟩, ⟨"cetus", "delta", 0.9⟩, ⟨"fjord", "alba", 0.4⟩]

def linkLabel : UInt64 := 1

/-- How many similar items are listed. -/
def count : Nat := 3

def Item.vector (item : Item) : Vec := (item.components.map Binary32.ofFloat).toArray

/-- The nodes of the items by name. -/
abbrev Directory := List (String × NodeId)

def Directory.node (d : Directory) (name : String) : NodeId := (d.lookup name).getD ⟨.null⟩

def Directory.name (d : Directory) (node : NodeId) : String :=
  ((d.find? (·.2 == node)).map (·.1)).getD "unknown"

/-- What is told of a configuration with another dimension than the one of the items. -/
def warning (c : Config) : List Event :=
  if c.vector.dimension = dimension then []
  else [⟨.warn, "nautylus", "Configured dimension " ++ toString c.vector.dimension ++
    " does not match the demo data, using " ++ toString dimension⟩]

def adopted (c : Config) : Config := { c with vector.dimension := dimension }

def addItems : HybridStore → List Item → Run (Directory × HybridStore)
  | s, [] => return ([], s)
  | s, item :: items => do
    let made := s.createNode item.vector
    let node ← .call (s.createNodeLog made)
      (made.1.mapError fun e => e.report.under ("failed to create " ++ item.name))
    let (d, s) ← addItems made.2 items
    return ((item.name, node) :: d, s)

def addLinks (d : Directory) : Graph → List Link → Run Graph
  | g, [] => return g
  | g, l :: links => do
    let source := d.node l.source
    let target := d.node l.target
    let made := g.createEdge source target linkLabel (.ofFloat l.weight) 0
    let _ ← .call (g.createEdgeLog source target made.1) (made.1.mapError (·.report))
    addLinks d made.2 links

def readyEvent (g : Graph) : Event := ⟨.info, "nautylus",
  "Demo graph ready: " ++ toString g.nodes.size ++ " nodes, " ++ toString g.edges.size ++ " edges"⟩

def build (c : Config) (allocator : Allocator) : Run (Directory × HybridStore) := do
  let s ← .call (HybridStore.ofConfigLog c allocator) ((HybridStore.ofConfig c allocator).mapError (·.report))
  let (d, s) ← addItems s items
  let graph ← addLinks d s.graph links
  .call [readyEvent graph] (.ok (d, { s with graph }))

def banner : List String := ["Nautylus v" ++ version, "==========================================", ""]

def statistics (g : Graph) : List String :=
  ["=== Graph Statistics ===", .ofList ((Statistics.form.toJson g.statistics).pretty 0), ""]

/-- One line for a similar item, with its place in the list. -/
def hitLine (d : Directory) (place : Nat) (hit : SimilarNode) : String :=
  "  " ++ toString (place + 1) ++ ") " ++ d.name hit.id ++
    " dist=" ++ hit.distance.reading.fixed 4 ++
    " connected=" ++ if hit.connected then "yes" else "no"

def showSimilar (d : Directory) (s : HybridStore) (name : String) (node : NodeId) : Run Unit := do
  let found := s.similarNodes node count
  let hits ← .call (HybridStore.similarNodesLog node found) (found.mapError (·.report))
  .print (("query: " ++ name ++ " (" ++ node.text ++ ")") ::
    hits.zipIdx.map fun (hit, place) => hitLine d place hit)

def demonstrate (c : Config) (allocator : Allocator) : Run Unit := do
  let (d, s) ← build c allocator
  .print (statistics s.graph)
  .print ["=== Similar Nodes (k = " ++ toString count ++ ") ==="]
  d.forM fun (name, node) => showSimilar d s name node

/-- The whole program. It starts before its configuration is read. -/
def program (config : Run Config) (allocator : Allocator) : Run Unit := do
  .print banner
  let c ← config
  .call (warning c) (.ok ())
  demonstrate (adopted c) allocator

def loadingEvent (path : String) : Event := ⟨.info, "nautylus::config", "Loading config from " ++ Text.quote path⟩

/-- The configuration in the content of the file at a path, if there is one. -/
def load (path : String) (content : Option ByteArray) : Run Config :=
  .call [loadingEvent path] ((Config.ofFile content).mapError fun e =>
    e.report.under ("failed to load config from " ++ Text.quote path))

/-- What the caller gets to see of a run. -/
def outcome (r : Run Unit) (subscriber : Subscriber) : Outcome :=
  match r.result with
  | .ok () => ⟨0, subscriber.render r.entries, ""⟩
  | .error e => ⟨1, subscriber.render r.entries, e.text⟩

def run (c : Except Report Config) (subscriber : Subscriber := .off) (allocator : Allocator := .addressSpace) :
    Outcome :=
  outcome (program ⟨[], c⟩ allocator) subscriber

def runOnFile (path : String) (content : Option ByteArray) (subscriber : Subscriber := .off)
    (allocator : Allocator := .addressSpace) : Outcome :=
  outcome (program (load path content) allocator) subscriber

end VectorGraph.Demo
