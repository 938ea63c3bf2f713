import VectorGraph.Config.Yaml
import VectorGraph.Hybrid

/-! Failures as they are told to a user: what failed, and what brought it about, the nearest cause first. -/
namespace VectorGraph

structure Report where
  summary : String
  causes : List String := []
deriving DecidableEq

namespace Report

def under (r : Report) (summary : String) : Report := ⟨summary, r.summary :: r.causes⟩

/-- A lone cause is indented, several are numbered from zero. -/
def causeLines : List String → List String
  | [] => []
  | [cause] => ["", "Caused by:", "    " ++ cause]
  | causes =>
    "" :: "Caused by:" :: causes.zipIdx.map fun (cause, place) => "    " ++ toString place ++ ": " ++ cause

def text (r : Report) : String :=
  String.join ((("Error: " ++ r.summary) :: causeLines r.causes).map (· ++ "\n"))

end Report

def ArenaError.report (e : ArenaError) : Report := ⟨e.message, []⟩

def GraphError.report (e : GraphError) : Report :=
  match e with
  | invalidCapacity _ cause => cause.report.under e.message
  | _ => ⟨e.message, []⟩

def VectorError.report (e : VectorError) : Report := ⟨e.message, []⟩

def HybridError.report (e : HybridError) : Report :=
  match e with
  | graph cause => cause.report.under e.message
  | vector cause => cause.report.under e.message
  | missingVector _ => ⟨e.message, []⟩

def ConfigError.report (e : ConfigError) : Report := ⟨e.message, [e.cause]⟩

end VectorGraph
