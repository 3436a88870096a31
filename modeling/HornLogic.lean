import HornLogic.Main
import HornLogic.Proofs.Generation
import HornLogic.Proofs.Equation
import HornLogic.Proofs.Chain
import HornLogic.Proofs.Layer
import HornLogic.Proofs.Search.Threaded
import HornLogic.Proofs.Ground
import HornLogic.Proofs.Regeneration
import HornLogic.Proofs.Plain
import HornLogic.Proofs.Branch
import HornLogic.Proofs.Linear
import HornLogic.Proofs.Unifier
import HornLogic.Proofs.Walk
import HornLogic.Proofs.EndName
import HornLogic.Proofs.Search.Related
import HornLogic.Proofs.Search.Branching
import HornLogic.Proofs.Search.GoalStack
import HornLogic.Proofs.Search.Call
import HornLogic.Proofs.Search.Completeness
import HornLogic.Proofs.Search.Soundness
import HornLogic.Proofs.Search.Answers
import HornLogic.Proofs.Search.Coupled
import HornLogic.Proofs.Search.Inclusion
import HornLogic.Proofs.Search.Cutoff
import HornLogic.Proofs.Recast
import HornLogic.Proofs.Apart
import HornLogic.Proofs.Search.Variant
import HornLogic.Proofs.Search.Nesting
import HornLogic.Proofs.Search.Logging
import HornLogic.Proofs.Search.ClauseChain
import HornLogic.Proofs.Search.Attribution
import HornLogic.Proofs.Search.Statistics
import HornLogic.Proofs.Search.Ranking
import HornLogic.Proofs.Search.Vocabulary
import HornLogic.Proofs.Search.Rearrangement
import HornLogic.Proofs.Matching
import HornLogic.Proofs.Search.GroundQuery
import HornLogic.Proofs.Text
import HornLogic.Proofs.Text.Bytes
import HornLogic.Proofs.Text.Numeral
import HornLogic.Proofs.Statement.Reader
import HornLogic.Proofs.Statement.Acceptance
import HornLogic.Proofs.Statement.Beginning
import HornLogic.Proofs.Statement.Stopping
import HornLogic.Proofs.Statement.Explanation
import HornLogic.Proofs.Statement.Absent
import HornLogic.Proofs.Statement.Position
import HornLogic.Proofs.Statement.Blame
import HornLogic.Proofs.Statement.WellFormed
import HornLogic.Proofs.Statement.Printing
import HornLogic.Proofs.Engine.Ingestion
import HornLogic.Proofs.Engine.Atomicity
import HornLogic.Proofs.Engine.Joining
import HornLogic.Proofs.Fault
import HornLogic.Proofs.Engine.Report
import HornLogic.Proofs.Engine.Answers
import HornLogic.Proofs.Json
import HornLogic.Proofs.Json.Reader
import HornLogic.Proofs.Json.Fields
import HornLogic.Proofs.Resolution
import HornLogic.Proofs.Fault.Record
import HornLogic.Proofs.Session.Line
import HornLogic.Proofs.Session.Counters
import HornLogic.Proofs.Session.Script
import HornLogic.Proofs.Session.Question
import HornLogic.Proofs.Session.Loading
import HornLogic.Proofs.Session.Interruption
import HornLogic.Proofs.Session.Replies
import HornLogic.Proofs.Session.Records
import HornLogic.Proofs.Session.Marks
import HornLogic.Proofs.Settings.Override
import HornLogic.Proofs.Toml
import HornLogic.Proofs.Settings.File
import HornLogic.Proofs.Program
