import CodeAtlas.Index.MemoryProvider
import CodeAtlas.Json.Pointer
import CodeAtlas.Main
import CodeAtlas.Service.Http
import CodeAtlas.Service.Message
import CodeAtlas.Signal.Bus
import CodeAtlas.Proofs.Cache.Expiry
import CodeAtlas.Proofs.Cache.Ledger
import CodeAtlas.Proofs.Cache.Pressure
import CodeAtlas.Proofs.Cache.Tally
import CodeAtlas.Proofs.Cache.Trimming
import CodeAtlas.Proofs.Engine.Layouts
import CodeAtlas.Proofs.Engine.Transparency
import CodeAtlas.Proofs.Json.Messages
import CodeAtlas.Proofs.Index.Filing
import CodeAtlas.Proofs.Index.Requests
import CodeAtlas.Proofs.Index.Agreement
import CodeAtlas.Proofs.Index.Rebuild
import CodeAtlas.Proofs.Query.Names
import CodeAtlas.Proofs.Routine.Ensures
import CodeAtlas.Proofs.Engine.Requests
import CodeAtlas.Proofs.Engine.Freshness
import CodeAtlas.Proofs.Engine.GraphData
import CodeAtlas.Proofs.Graph.Assembly
import CodeAtlas.Proofs.Index.Overlap
import CodeAtlas.Proofs.Query.Connected
import CodeAtlas.Proofs.Query.History
import CodeAtlas.Proofs.Query.Keys
import CodeAtlas.Proofs.Query.LazyBuild
import CodeAtlas.Proofs.Query.Pages
import CodeAtlas.Proofs.Symbol.Identity
import CodeAtlas.Proofs.Symbol.Flattening
import CodeAtlas.Proofs.Symbol.NameHistory
import CodeAtlas.Proofs.Engine.Failures
import CodeAtlas.Proofs.Engine.Supersession
import CodeAtlas.Proofs.Service.Rejection
import CodeAtlas.Proofs.Float.Arithmetic
import CodeAtlas.Proofs.Layout.Overflow
import CodeAtlas.Proofs.Layout.Placement
import CodeAtlas.Proofs.Layout.Finite
import CodeAtlas.Proofs.Layout.Pins
import CodeAtlas.Proofs.Cache.Sweeping
import CodeAtlas.Proofs.Layout.Levels
import CodeAtlas.Proofs.Layout.Neighbors
import CodeAtlas.Proofs.Layout.Rest
import CodeAtlas.Proofs.Layout.Strategies
import CodeAtlas.Proofs.Layout.Incremental
import CodeAtlas.Proofs.Layout.Rows
import CodeAtlas.Proofs.Config.Layouts
import CodeAtlas.Proofs.Query.Globs
import CodeAtlas.Proofs.Layout.Fitting
import CodeAtlas.Proofs.Source.Imports
import CodeAtlas.Proofs.Query.Phrases
import CodeAtlas.Proofs.Layout.Viewports
import CodeAtlas.Proofs.Geometry.Crossings
import CodeAtlas.Proofs.Source.Words
