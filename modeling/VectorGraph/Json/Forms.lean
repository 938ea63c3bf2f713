import VectorGraph.Hybrid
import VectorGraph.Json.Record

/-! The JSON forms of the records. -/
namespace VectorGraph

open Json (Form)

/-- A handle is written as its raw value. -/
def Id.toJson (id : Id) : Json := .integer id.raw.toNat

def Id.ofJson : Json.Reader Id := return ⟨← Json.Reader.uint64 "u64"⟩

def Direction.toJson (d : Direction) : Json := .string d.title

def Direction.ofJson : Json.Reader Direction :=
  Json.Reader.enumeration ([.outgoing, .incoming].map fun d : Direction => (d.title, d))

def Kind.toJson (k : Kind) : Json := .string k.title

def Kind.ofJson : Json.Reader Kind :=
  Json.Reader.enumeration ([.node, .edge, .property].map fun k : Kind => (k.title, k))

def Node.form : Form Node where
  name := "Node"
  blank := default
  fields := [
    .ref "id" (·.id) fun x n => { n with id := x },
    .link "out_head" (·.outgoing.first) fun x n => { n with outgoing.first := x },
    .link "out_tail" (·.outgoing.last) fun x n => { n with outgoing.last := x },
    .link "in_head" (·.incoming.first) fun x n => { n with incoming.first := x },
    .link "in_tail" (·.incoming.last) fun x n => { n with incoming.last := x }]

def Edge.form : Form Edge where
  name := "Edge"
  blank := default
  fields := [
    .ref "id" (·.id) fun x e => { e with id := x },
    .ref "from" (·.source) fun x e => { e with source := x },
    .ref "to" (·.target) fun x e => { e with target := x },
    .word "edge_type" (·.label) fun x e => { e with label := x },
    .float64 "weight" (·.weight) fun x e => { e with weight := x },
    .word "timestamp" (·.timestamp) fun x e => { e with timestamp := x },
    .link "out_prev" (·.outgoing.previous) fun x e => { e with outgoing.previous := x },
    .link "out_next" (·.outgoing.next) fun x e => { e with outgoing.next := x },
    .link "in_prev" (·.incoming.previous) fun x e => { e with incoming.previous := x },
    .link "in_next" (·.incoming.next) fun x e => { e with incoming.next := x }]

def Property.form : Form Property where
  name := "Property"
  blank := default
  fields := [
    .ref "id" (·.id) fun x p => { p with id := x },
    .id "owner" (·.owner) fun x p => { p with owner := x },
    .word "key" (·.key) fun x p => { p with key := x },
    .float64 "value" (·.value) fun x p => { p with value := x }]

def Statistics.form : Form Statistics where
  name := "GraphStatistics"
  blank := default
  fields := [
    .size "node_count" .refused (·.nodeCount) fun x s => { s with nodeCount := x },
    .size "edge_count" .refused (·.edgeCount) fun x s => { s with edgeCount := x },
    .size "property_count" .refused (·.propertyCount) fun x s => { s with propertyCount := x },
    .size "node_capacity" .refused (·.nodeCapacity) fun x s => { s with nodeCapacity := x },
    .size "edge_capacity" .refused (·.edgeCapacity) fun x s => { s with edgeCapacity := x },
    .size "property_capacity" .refused (·.propertyCapacity) fun x s => { s with propertyCapacity := x }]

/-- A setting may be left out. -/
def Setting.field {α : Type} (s : Setting α) : Json.Field α := .size s.name .allowed s.get s.set

def GraphConfig.form : Form GraphConfig := ⟨"GraphConfig", {}, settings.map (·.field)⟩

def VectorConfig.form : Form VectorConfig := ⟨"VectorConfig", {}, settings.map (·.field)⟩

def Config.form : Form Config where
  name := "NautylusConfig"
  blank := {}
  fields := [
    GraphConfig.form.field "graph" (·.graph) fun x c => { c with graph := x },
    VectorConfig.form.field "vector" (·.vector) fun x c => { c with vector := x }]

def Neighbor.form : Form Neighbor where
  name := "Neighbor"
  blank := default
  fields := [
    .id "id" (·.id) fun x h => { h with id := x },
    .float32 "distance" (·.distance) fun x h => { h with distance := x }]

def SimilarNode.form : Form SimilarNode where
  name := "SimilarNode"
  blank := default
  fields := [
    .ref "id" (·.id) fun x h => { h with id := x },
    .float32 "distance" (·.distance) fun x h => { h with distance := x },
    .flag "connected" (·.connected) fun x h => { h with connected := x }]

end VectorGraph
