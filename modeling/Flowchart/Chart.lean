/-
Charts: programs that have been checked and can be run. A chart keeps the name and the
description of the program beside its graph.
-/
import Flowchart.Program
import Flowchart.Run.Report
import Flowchart.Schematic.Basic

namespace Flowchart

structure Chart where
  name : String
  description : Option String
  graph : Graph
deriving DecidableEq

/-- Checks a program. -/
def Program.chart (p : Program) (allowFanOut : Bool) : Except BuildError Chart := do
  return { name := p.name, description := p.description, graph := ← p.build allowFanOut }

namespace Chart

/-- A new run. -/
def start (c : Chart) (config : Config) : Run := Run.start c.graph config

def schematic (c : Chart) : Schematic := Schematic.ofGraph c.name c.description c.graph

end Chart

end Flowchart
