import ScriptLoader.Text.Classes
import ScriptLoader.Text.Split
import ScriptLoader.Json.Reader
import ScriptLoader.Json.Printer
import ScriptLoader.Specifier.Basic
import ScriptLoader.Syntax.Token
import ScriptLoader.Compile.Lower
import ScriptLoader.Cache.Checksum
import ScriptLoader.Log.Level
import ScriptLoader.Text.Size
import ScriptLoader.Emit.OutputPath
import ScriptLoader.Compile.Lines
import ScriptLoader.Keyed
import ScriptLoader.Module.Basic
import ScriptLoader.Module.Registry
import ScriptLoader.Graph.Basic
import ScriptLoader.Graph.Tree
import ScriptLoader.Log.Event
import ScriptLoader.Host.Basic
import ScriptLoader.Host.Script
import ScriptLoader.Assembly
import ScriptLoader.Described
import ScriptLoader.Disk.Path
import ScriptLoader.Disk.Basic
import ScriptLoader.Source.Basic
import ScriptLoader.Source.Memory
import ScriptLoader.Source.Directory
import ScriptLoader.Fetch
import ScriptLoader.Pool.Basic
import ScriptLoader.Pool.Run
import ScriptLoader.Pool.Rehearsal
import ScriptLoader.Pool.Crew
import ScriptLoader.Text.Utf8
import ScriptLoader.Cache.Entry
import ScriptLoader.Cache.Store
import ScriptLoader.Cache.Lookup
import ScriptLoader.Resolution.Basic
import ScriptLoader.Workshop
import ScriptLoader.Resolution.Run
import ScriptLoader.Graph.Closure
import ScriptLoader.Loader.Basic
import ScriptLoader.Loader.Request
import ScriptLoader.Log.Filter
import ScriptLoader.Json.Fields
import ScriptLoader.Decimal.Reading
import ScriptLoader.Toml.Table
import ScriptLoader.Toml.Scalar
import ScriptLoader.Toml.Reader
import ScriptLoader.Config.Basic
import ScriptLoader.Config.Value
import ScriptLoader.Config.Written
import ScriptLoader.Config.Extract
import ScriptLoader.Config.Layers
import ScriptLoader.Cache.Database
import ScriptLoader.Cli.Switch
import ScriptLoader.Cli.Refusal
import ScriptLoader.Cli.Arguments
import ScriptLoader.Cli.Invocation
import ScriptLoader.Cli.Message
import ScriptLoader.Cli.Failure
import ScriptLoader.Cli.Session
import ScriptLoader.Cli.Commands
import ScriptLoader.Cli.Program
import ScriptLoader.Loader.Lifetime
import ScriptLoader.Main
import ScriptLoader.Proofs.Resolution.AnyOrder
import ScriptLoader.Proofs.Resolution.Execution
import ScriptLoader.Proofs.Assembly.Walk
import ScriptLoader.Proofs.Assembly.Once
import ScriptLoader.Proofs.Loader.Interleaving
import ScriptLoader.Proofs.Assembly.Needed
import ScriptLoader.Proofs.Graph.Closure
import ScriptLoader.Proofs.Loader.Adoption
import ScriptLoader.Proofs.Loader.Retention
import ScriptLoader.Proofs.Loader.Displaced
import ScriptLoader.Proofs.Pool.Steps
import ScriptLoader.Proofs.Pool.Conservation
import ScriptLoader.Proofs.Graph.Postorder
import ScriptLoader.Proofs.Assembly.Observed
import ScriptLoader.Proofs.Assembly.Postorder
import ScriptLoader.Proofs.Assembly.Stubs
import ScriptLoader.Proofs.Loader.LeftWaiting
import ScriptLoader.Proofs.Cache.Store
import ScriptLoader.Proofs.Resolution.History
import ScriptLoader.Proofs.Pool.Outcome
import ScriptLoader.Proofs.Pool.Hearing
import ScriptLoader.Proofs.Pool.Floor
import ScriptLoader.Proofs.Pool.FloorSteps
import ScriptLoader.Proofs.Pool.Crew
import ScriptLoader.Proofs.Pool.Rehearsed
import ScriptLoader.Proofs.Pool.Staff
import ScriptLoader.Proofs.Module.Chains
import ScriptLoader.Proofs.Assembly.Reexports
import ScriptLoader.Proofs.Loader.Apart
import ScriptLoader.Proofs.Loader.Stored
import ScriptLoader.Proofs.Loader.Failure
import ScriptLoader.Proofs.Compile.Splice
import ScriptLoader.Proofs.Syntax.Yields
import ScriptLoader.Proofs.Compile.Clauses
import ScriptLoader.Proofs.Compile.Calls
import ScriptLoader.Proofs.Loader.Begun
import ScriptLoader.Proofs.Sharing.Conduct
import ScriptLoader.Proofs.Sharing.Request
import ScriptLoader.Proofs.Sharing.Duty
import ScriptLoader.Proofs.Sharing.Parts
import ScriptLoader.Proofs.Sharing.Stages
import ScriptLoader.Proofs.Sharing.Provenance
import ScriptLoader.Proofs.Sharing.Footprint
import ScriptLoader.Proofs.Sharing.Delivery
import ScriptLoader.Proofs.Sharing.Isolation
import ScriptLoader.Proofs.Compile.Woven
import ScriptLoader.Proofs.Syntax.Spelled
import ScriptLoader.Proofs.Syntax.Constants
import ScriptLoader.Proofs.Syntax.Behind
import ScriptLoader.Proofs.Compile.Preface
import ScriptLoader.Proofs.Compile.Declared
import ScriptLoader.Proofs.Resolution.Budget
import ScriptLoader.Proofs.Disk.Extends
import ScriptLoader.Proofs.Cache.Engine
import ScriptLoader.Proofs.Cache.Files
import ScriptLoader.Proofs.Cache.Refinement
import ScriptLoader.Proofs.Resolution.Warm
import ScriptLoader.Proofs.Module.Slots
import ScriptLoader.Proofs.Assembly.BackEdges
import ScriptLoader.Proofs.Loader.Wiring
import ScriptLoader.Proofs.Syntax.Uses
import ScriptLoader.Proofs.Compile.Imports
import ScriptLoader.Proofs.Compile.OneLine
import ScriptLoader.Proofs.Compile.LineNumbers
import ScriptLoader.Proofs.Syntax.Names
import ScriptLoader.Proofs.Module.Deferred
import ScriptLoader.Proofs.Specifier.Routes
import ScriptLoader.Proofs.Specifier.Origin
import ScriptLoader.Proofs.Specifier.Extension
import ScriptLoader.Proofs.Specifier.Normal
import ScriptLoader.Proofs.Fetch.Courses
import ScriptLoader.Proofs.Places.Scanning
import ScriptLoader.Proofs.Places.Running
import ScriptLoader.Proofs.Places.Trees
import ScriptLoader.Proofs.Places.Laying
import ScriptLoader.Proofs.Places.Types
import ScriptLoader.Proofs.Places.Patterns
import ScriptLoader.Proofs.Places.Expressions
import ScriptLoader.Proofs.Places.Markup
import ScriptLoader.Proofs.Places.Modules
import ScriptLoader.Proofs.Places.Statements
import ScriptLoader.Proofs.Places.Programs
import ScriptLoader.Proofs.Syntax.Loading
import ScriptLoader.Proofs.Compile.Dynamic
import ScriptLoader.Proofs.Disk.Paths
import ScriptLoader.Proofs.Source.Containment
import ScriptLoader.Proofs.Emit.Paths
import ScriptLoader.Proofs.Graph.Tree
import ScriptLoader.Proofs.Disk.Writing
import ScriptLoader.Proofs.Emit.Writing
import ScriptLoader.Proofs.Text.Bytes
import ScriptLoader.Proofs.Cache.Separation
import ScriptLoader.Proofs.Loader.StaticClosure
import ScriptLoader.Proofs.Compile.Replaced
