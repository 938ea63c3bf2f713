import VectorGraph.Report

/-!
Programs that print lines and log events. The lines are what they are; what is written for an event is up to the
subscriber that the program has installed, which writes to the same place.
-/
namespace VectorGraph

inductive Level where
  | trace
  | debug
  | info
  | warn
deriving DecidableEq

namespace Level

def rank : Level → Nat
  | trace => 0
  | debug => 1
  | info => 2
  | warn => 3

def label : Level → String
  | trace => "TRACE"
  | debug => "DEBUG"
  | info => " INFO"
  | warn => " WARN"

end Level

structure Event where
  level : Level
  /-- The part of the program that it is from. -/
  target : String
  message : String
deriving DecidableEq

/-- What is written for an event, with its line break, by the number of lines and events before it. That number stands
for the time, and an event that is filtered out has no text. -/
abbrev Subscriber := Nat → Event → String

namespace Subscriber

def off : Subscriber := fun _ _ => ""

/-- One line for every event of some level or above, with the time first. -/
def lines (time : Nat → String) (least : Level) : Subscriber := fun place e =>
  if least.rank ≤ e.level.rank then
    time place ++ " " ++ e.level.label ++ " " ++ e.target ++ ": " ++ e.message ++ "\n"
  else ""

end Subscriber

inductive Entry where
  | line (text : String)
  | event (e : Event)
deriving DecidableEq

def Entry.text (write : Event → String) : Entry → String
  | line text => text ++ "\n"
  | event e => write e

def Subscriber.render (subscriber : Subscriber) (entries : List Entry) : String :=
  .join (entries.mapIdx fun place entry => entry.text (subscriber place))

/-- What a program has put out when it ends, and how it ends. -/
structure Run (α : Type) where
  entries : List Entry
  result : Except Report α

namespace Run

instance : Monad Run where
  pure a := ⟨[], .ok a⟩
  bind r f :=
    match r.result with
    | .ok a => ⟨r.entries ++ (f a).entries, (f a).result⟩
    | .error e => ⟨r.entries, .error e⟩

def print (lines : List String) : Run Unit := ⟨lines.map .line, .ok ()⟩

/-- A call that logs events before it answers. -/
def call {α : Type} (events : List Event) (answer : Except Report α) : Run α := ⟨events.map .event, answer⟩

end Run

end VectorGraph
