import InkPreview.Document.Import
import InkPreview.Json.Writer
import InkPreview.Live.Startup
import InkPreview.Main
import InkPreview.Web.Address
import InkPreview.Proofs.Live.Outside
import InkPreview.Proofs.Live.Moves
import InkPreview.Proofs.Live.Fresh
import InkPreview.Proofs.Live.Bench
import InkPreview.Proofs.Live.Course
import InkPreview.Proofs.Live.Locking
import InkPreview.Proofs.Live.SingleFlight
import InkPreview.Proofs.Live.Numbering
import InkPreview.Proofs.Live.Endings
import InkPreview.Proofs.Live.SelfWait
import InkPreview.Proofs.Live.Ledger
import InkPreview.Proofs.Live.Counting
import InkPreview.Proofs.Live.Stacks
import InkPreview.Proofs.Live.Balance
import InkPreview.Proofs.Live.Custody
import InkPreview.Proofs.Live.Overlap
import InkPreview.Proofs.Live.Roster
import InkPreview.Proofs.Live.Absence
import InkPreview.Proofs.Live.Gathering
import InkPreview.Proofs.Live.Interruption
import InkPreview.Proofs.Live.Barrier
import InkPreview.Proofs.Live.Idling
import InkPreview.Proofs.Live.Duties
import InkPreview.Proofs.Live.Agreement
import InkPreview.Proofs.Live.Convergence
import InkPreview.Proofs.Live.Compilation
import InkPreview.Proofs.Live.Deadline
import InkPreview.Proofs.Live.Invocation
import InkPreview.Proofs.Live.Exports
import InkPreview.Proofs.Live.Handling
import InkPreview.Proofs.Live.Conservation
import InkPreview.Proofs.Live.Seclusion
import InkPreview.Proofs.Live.Retired
import InkPreview.Proofs.Live.Announcing
import InkPreview.Proofs.Live.Telling
import InkPreview.Proofs.Live.Reception
import InkPreview.Proofs.Live.Deliveries
import InkPreview.Proofs.Library
import InkPreview.Proofs.Metrics
import InkPreview.Proofs.Rendering
import InkPreview.Proofs.Web
import InkPreview.Proofs.Live.Filing
import InkPreview.Proofs.Live.Storage
import InkPreview.Proofs.Command.Run
import InkPreview.Proofs.Live.Registry
import InkPreview.Page.Elements
import InkPreview.Page.Harness
import InkPreview.Proofs.Page.Elements
import InkPreview.Proofs.Page.Layout
import InkPreview.Json.Token
import InkPreview.Proofs.Deduplication
import InkPreview.Proofs.Json.Inlining
import InkPreview.Proofs.Page.Scripts
import InkPreview.Proofs.Page.Shown
import InkPreview.Proofs.Compile.Outcome
import InkPreview.Proofs.Compile.Search
import InkPreview.Proofs.Live.Verdict
import InkPreview.Proofs.Live.Handover
import InkPreview.Proofs.Live.Searching
import InkPreview.Proofs.Live.Parts.Footprints
