import ClientPlan.Document.ToJson
import ClientPlan.Main
import ClientPlan.Json.Str
import ClientPlan.Service.TypeExpr
import ClientPlan.Proofs.Document.Acceptance
import ClientPlan.Proofs.Document.RoundTrip
import ClientPlan.Proofs.Text.Ascii
import ClientPlan.Proofs.Json.Strings
import ClientPlan.Proofs.Json.Values
import ClientPlan.Proofs.Json.Characters
import ClientPlan.Proofs.Path.Names
import ClientPlan.Proofs.Path.Address
import ClientPlan.Proofs.Path.Below
import ClientPlan.Proofs.Path.Clean
import ClientPlan.Proofs.Path.Roots
import ClientPlan.Proofs.Path.Tidy
import ClientPlan.Proofs.Json.LongIntegers
import ClientPlan.Proofs.Document.Loading
import ClientPlan.Proofs.Document.Indifference
import ClientPlan.Proofs.Document.Places
import ClientPlan.Proofs.Planning.Positions
import ClientPlan.Proofs.Planning.Placement
import ClientPlan.Proofs.Planning.Refusal
import ClientPlan.Proofs.Planning.Handles
import ClientPlan.Proofs.Planning.Authentication
import ClientPlan.Proofs.FileSystem.Ways
import ClientPlan.Proofs.FileSystem.Effects
import ClientPlan.Proofs.FileSystem.Walks
import ClientPlan.Proofs.FileSystem.Progress
import ClientPlan.Proofs.FileSystem.Contents
import ClientPlan.Proofs.FileSystem.Growth
import ClientPlan.Proofs.FileSystem.Erasure
import ClientPlan.Proofs.Glob.Ending
import ClientPlan.Proofs.Glob.Expansion
import ClientPlan.Proofs.Glob.Persistence
import ClientPlan.Proofs.Glob.Literal
import ClientPlan.Proofs.Glob.Recursion
import ClientPlan.Proofs.Generation.Order
import ClientPlan.Proofs.Generation.Removal
import ClientPlan.Proofs.Generation.Writing
import ClientPlan.Proofs.Generation.PlanFile
import ClientPlan.Proofs.Generation.Effect
import ClientPlan.Proofs.Generation.Interruption
import ClientPlan.Proofs.Generation.Assignment
import ClientPlan.Proofs.Generation.Account
import ClientPlan.Proofs.Generation.Files
import ClientPlan.Proofs.Generation.Collisions
import ClientPlan.Proofs.Generation.Placement
import ClientPlan.Proofs.Generation.Mirroring
import ClientPlan.Proofs.Generation.Sources
import ClientPlan.Proofs.Generation.Clearance
import ClientPlan.Proofs.Generation.Rewriting
import ClientPlan.Proofs.Generation.Isolation
import ClientPlan.Proofs.Generation.Rediscovery
import ClientPlan.Proofs.Generation.Repetition
import ClientPlan.Proofs.Generation.Spellings
import ClientPlan.Proofs.Generation.Cleaning
import ClientPlan.Proofs.Generation.NamedFiles
import ClientPlan.Proofs.Generation.Directories
import ClientPlan.Proofs.Generation.Monotony
import ClientPlan.Proofs.Generation.Reports
import ClientPlan.Proofs.Service.Description
import ClientPlan.Proofs.CommandLine.Requests
