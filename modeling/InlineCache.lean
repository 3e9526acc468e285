import InlineCache.Inspect
import InlineCache.Session
import InlineCache.Proofs.Hierarchy
import InlineCache.Proofs.Versions
import InlineCache.Proofs.Change
import InlineCache.Proofs.Cached
import InlineCache.Proofs.Requests
import InlineCache.Proofs.History
import InlineCache.Proofs.Grants
import InlineCache.Proofs.Moves
import InlineCache.Proofs.General
import InlineCache.Proofs.CallSteps
import InlineCache.Proofs.PlanBinding
import InlineCache.Proofs.Uncached
import InlineCache.Proofs.Transparency
import InlineCache.Proofs.Freshness
import InlineCache.Proofs.Construction
import InlineCache.Proofs.FastPath
import InlineCache.Proofs.Programs
import InlineCache.Proofs.Timeline
import InlineCache.Proofs.Unseen
import InlineCache.Proofs.Service
import InlineCache.Proofs.ArityCap
import InlineCache.Proofs.Guard
import InlineCache.Proofs.Slots
import InlineCache.Proofs.Entries
import InlineCache.Proofs.Initialization
import InlineCache.Proofs.Definition
import InlineCache.Proofs.Ancestry
import InlineCache.Proofs.Callees
import InlineCache.Proofs.Numbering
import InlineCache.Proofs.Accounts
import InlineCache.Proofs.Builds
import InlineCache.Proofs.Stock
import InlineCache.Proofs.Race
import InlineCache.Proofs.Story
import InlineCache.Proofs.Statistics
import InlineCache.Proofs.Fitted
import InlineCache.Proofs.Boundary
import InlineCache.Proofs.Inert
import InlineCache.Proofs.Links
import InlineCache.Proofs.Descents
import InlineCache.Proofs.Mutation
import InlineCache.Proofs.Binding
import InlineCache.Proofs.Planned
import InlineCache.Proofs.Eligibility
import InlineCache.Proofs.Lives
import InlineCache.Proofs.Remembered
import InlineCache.Proofs.RelayRuns
import InlineCache.Proofs.Metaclass
import InlineCache.Proofs.LeftOver
import InlineCache.Proofs.Refusals
import InlineCache.Proofs.StarArguments
import InlineCache.Proofs.ExcessArguments
import InlineCache.Proofs.MixedModels
import InlineCache.Proofs.Metatypes
import InlineCache.Proofs.Atomicity
import InlineCache.Proofs.Relays
import InlineCache.Proofs.FastLane
import InlineCache.Proofs.FastCalls
import InlineCache.Proofs.Signatures
import InlineCache.Proofs.Variables
