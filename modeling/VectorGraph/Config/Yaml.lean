import VectorGraph.Config
import VectorGraph.Yaml.Reader

/-! Configurations read from YAML files. What a file leaves out keeps its default. -/
namespace VectorGraph

open Yaml (Form)

def Setting.yaml {α : Type} (s : Setting α) : Yaml.Field α := .size s.name s.set

def GraphConfig.yaml : Form GraphConfig := ⟨"GraphConfig", {}, settings.map (·.yaml)⟩

def VectorConfig.yaml : Form VectorConfig := ⟨"VectorConfig", {}, settings.map (·.yaml)⟩

def Config.yaml : Form Config where
  name := "NautylusConfig"
  blank := {}
  fields := [
    GraphConfig.yaml.field "graph" fun x c => { c with graph := x },
    VectorConfig.yaml.field "vector" fun x c => { c with vector := x }]

inductive ConfigError where
  | noFile
  | notText
  /-- The text is not one document. -/
  | malformed (cause : Yaml.Fault)
  /-- The text is one document that is no configuration. -/
  | invalid (cause : Yaml.Fault)
deriving DecidableEq

namespace ConfigError

def cause : ConfigError → String
  | noFile => "No such file or directory (os error 2)"
  | notText => "stream did not contain valid UTF-8"
  | malformed cause => cause.message
  | invalid cause => cause.message

def message (e : ConfigError) : String :=
  match e with
  | noFile => "IO error: " ++ e.cause
  | notText => "IO error: " ++ e.cause
  | malformed _ => "Invalid config: " ++ e.cause
  | invalid _ => "Invalid config: " ++ e.cause

end ConfigError

namespace Config

def ofYaml (text : String) : Except ConfigError Config :=
  (yaml.ofText text).mapError fun cause =>
    if (Yaml.Stream.read text.toList).isWhole then .invalid cause else .malformed cause

/-- Reads the content of a file, if there is one. -/
def ofFile : Option ByteArray → Except ConfigError Config
  | none => .error .noFile
  | some bytes =>
    match String.fromUTF8? bytes with
    | some text => ofYaml text
    | none => .error .notText

end Config

end VectorGraph
