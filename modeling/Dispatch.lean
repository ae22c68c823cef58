import Dispatch.Catalog
import Dispatch.Conversion
import Dispatch.Declarations
import Dispatch.Dispatcher
import Dispatch.Error
import Dispatch.Hierarchy
import Dispatch.Host
import Dispatch.Member
import Dispatch.Memo
import Dispatch.Number.Binary
import Dispatch.Number.Decimal
import Dispatch.Rank
import Dispatch.Registry.Basic
import Dispatch.Registry.Import
import Dispatch.Request
import Dispatch.Resolution
import Dispatch.Scoring
import Dispatch.Session
import Dispatch.Settings
import Dispatch.Settings.Document
import Dispatch.Table
import Dispatch.Text.Blank
import Dispatch.Ty
import Dispatch.TypeName
import Dispatch.Value
import Dispatch.Proofs.Hierarchy.Levels
import Dispatch.Proofs.Members.Kept
import Dispatch.Proofs.Registry.Moves
import Dispatch.Proofs.Registry.Agreement
import Dispatch.Proofs.Scoring.Meaning
import Dispatch.Proofs.Resolution.Meaning
import Dispatch.Proofs.Resolution.Shape
import Dispatch.Proofs.Dispatcher.Moves
import Dispatch.Proofs.Resolution.History
import Dispatch.Proofs.Members.Overriding
import Dispatch.Proofs.Members.Inheritance
import Dispatch.Proofs.Fields.Assignment
import Dispatch.Proofs.Conversion.Accepted
import Dispatch.Proofs.Dispatcher.Selection
import Dispatch.Proofs.Resolution.Provenance
import Dispatch.Proofs.Dispatcher.Effects
import Dispatch.Proofs.Members.Access
import Dispatch.Proofs.Dispatcher.Names
import Dispatch.Proofs.Registry.Growth
import Dispatch.Proofs.Registry.Collisions
import Dispatch.Proofs.Dispatcher.Gate
import Dispatch.Proofs.Hierarchy.Visits
import Dispatch.Proofs.Members.Lookups
import Dispatch.Proofs.Hierarchy.Subtyping
import Dispatch.Proofs.Scoring.Bounds
import Dispatch.Proofs.Scoring.Best
import Dispatch.Proofs.Dispatcher.Finding
import Dispatch.Proofs.Dispatcher.Exact
import Dispatch.Proofs.Dispatcher.Narrowing
import Dispatch.Proofs.Number.Decimals
import Dispatch.Proofs.Conversion.Decimals
import Dispatch.Proofs.Conversion.Lossless
import Dispatch.Proofs.Registry.Repetition
import Dispatch.Proofs.Dispatcher.Constructions
import Dispatch.Proofs.Declarations.Recorded
import Dispatch.Proofs.Declarations.Coherence
import Dispatch.Proofs.Dispatcher.Enclosing
import Dispatch.Proofs.Conversion.Widening
import Dispatch.Proofs.Dispatcher.Equality
import Dispatch.Proofs.Dispatcher.Recasting
import Dispatch.Proofs.Registry.Imports
import Dispatch.Proofs.Types.Writing
import Dispatch.Proofs.Registry.Readings
import Dispatch.Proofs.Conversion.Composition
