import Flowchart.Main
import Flowchart.Proofs.Lists
import Flowchart.Proofs.Graph
import Flowchart.Proofs.Run.Step
import Flowchart.Proofs.Run.Walk
import Flowchart.Proofs.Run.BreadthFirst
import Flowchart.Proofs.Run.Limits
import Flowchart.Proofs.Expression.Grammar
import Flowchart.Proofs.Expression.Parsing
import Flowchart.Proofs.Expression.Words
import Flowchart.Proofs.Expression.Tokenizing
import Flowchart.Proofs.Expression.Language
import Flowchart.Proofs.Expression.Names
import Flowchart.Proofs.Expression.Scans
import Flowchart.Proofs.Expression.Tiling
import Flowchart.Proofs.Run.Bookkeeping
import Flowchart.Proofs.Environment
import Flowchart.Proofs.Run.Lineage
import Flowchart.Proofs.Expression.Leaves
import Flowchart.Proofs.Expression.Rejection
import Flowchart.Proofs.Run.Records
import Flowchart.Proofs.Run.Route
import Flowchart.Proofs.Run.Trace
import Flowchart.Proofs.Run.FanOut
import Flowchart.Proofs.Run.TypeConflict
import Flowchart.Proofs.Run.Stopping
import Flowchart.Proofs.Run.DescriptionOrder
import Flowchart.Proofs.Run.SiblingOrder
import Flowchart.Proofs.Run.Acyclic
import Flowchart.Proofs.Building
import Flowchart.Proofs.Json.Scanning
import Flowchart.Proofs.Json.Spelling
import Flowchart.Proofs.Run.StaticView
import Flowchart.Proofs.Json.Writing
import Flowchart.Proofs.Json.Programs
import Flowchart.Proofs.Json.Environments
import Flowchart.Proofs.Expression.ViablePrefix
import Flowchart.Proofs.Decimal.Rounding
import Flowchart.Proofs.Decimal.Remainder
import Flowchart.Proofs.Decimal.Integers
import Flowchart.Proofs.Expression.Evaluation
import Flowchart.Proofs.Expression.Height
import Flowchart.Proofs.Expression.Integers
import Flowchart.Proofs.CommandLine.ExitStatus
import Flowchart.Proofs.Construction
import Flowchart.Proofs.Variables
import Flowchart.Proofs.Assignments
import Flowchart.Proofs.Json.Schematics
import Flowchart.Proofs.Config.Overrides
import Flowchart.Proofs.Config.Layers
import Flowchart.Proofs.Decimal.Canonical
import Flowchart.Proofs.CommandLine.Bindings
