import NominalTypes.Assignable
import NominalTypes.CommandLine.Answer
import NominalTypes.CommandLine.Arguments
import NominalTypes.CommandLine.Command
import NominalTypes.CommandLine.LogFormat
import NominalTypes.CommandLine.Run
import NominalTypes.CommandLine.Usage
import NominalTypes.CommonAncestor
import NominalTypes.CoreLibrary
import NominalTypes.Declaration
import NominalTypes.Descriptor
import NominalTypes.Hierarchy.Ancestry
import NominalTypes.Hierarchy.BaseChain
import NominalTypes.Hierarchy.InterfaceDepth
import NominalTypes.Json.Basic
import NominalTypes.Json.Printer
import NominalTypes.Json.Reader
import NominalTypes.Main
import NominalTypes.NamePool
import NominalTypes.Pattern.Bindings
import NominalTypes.Pattern.Match
import NominalTypes.Pattern.Shape
import NominalTypes.Proofs.Acyclicity
import NominalTypes.Proofs.Ancestries
import NominalTypes.Proofs.Assignability
import NominalTypes.Proofs.Atomicity
import NominalTypes.Proofs.Building.Consistency
import NominalTypes.Proofs.Building.Declaration
import NominalTypes.Proofs.Building.Growth
import NominalTypes.Proofs.Building.Instantiation
import NominalTypes.Proofs.Building.Outcome
import NominalTypes.Proofs.Building.Outline
import NominalTypes.Proofs.Building.Reachable
import NominalTypes.Proofs.Building.Resolution
import NominalTypes.Proofs.Building.TypeTree
import NominalTypes.Proofs.Building.WellFormed
import NominalTypes.Proofs.Coherence
import NominalTypes.Proofs.CommonAncestors
import NominalTypes.Proofs.GroundPatterns
import NominalTypes.Proofs.Hierarchy.Completeness
import NominalTypes.Proofs.Hierarchy.Depth
import NominalTypes.Proofs.Hierarchy.Growth
import NominalTypes.Proofs.Hierarchy.Order
import NominalTypes.Proofs.Hierarchy.Reach
import NominalTypes.Proofs.Hierarchy.Supertypes
import NominalTypes.Proofs.Hierarchy.Walks
import NominalTypes.Proofs.Identity
import NominalTypes.Proofs.Matching
import NominalTypes.Proofs.Pattern.Derivation
import NominalTypes.Proofs.Permanence
import NominalTypes.Proofs.Totality
import NominalTypes.Proofs.TypeExpr.Grammar
import NominalTypes.Proofs.TypeExpr.Spelling
import NominalTypes.Roles
import NominalTypes.Store.Basic
import NominalTypes.Store.Declare
import NominalTypes.Store.Error
import NominalTypes.Store.Instantiate
import NominalTypes.Store.Label
import NominalTypes.Store.Resolve
import NominalTypes.Text.Alphanumeric
import NominalTypes.Text.Blank
import NominalTypes.Text.CodeRanges
import NominalTypes.TypeExpr.Basic
import NominalTypes.TypeExpr.Printer
import NominalTypes.TypeExpr.Reader
import NominalTypes.TypeExpr.Token
import NominalTypes.Universe.Basic
import NominalTypes.Universe.Decode
import NominalTypes.Proofs.TypeExpr.Nesting
import NominalTypes.Proofs.Building.Naming
import NominalTypes.Proofs.History.Requests
import NominalTypes.Proofs.History.Lockstep
import NominalTypes.Proofs.History
import NominalTypes.Proofs.Transitivity
import NominalTypes.Proofs.RoundTrip
import NominalTypes.Proofs.Building.Registry
import NominalTypes.Proofs.NameLookup
import NominalTypes.Proofs.Pattern.Captures
import NominalTypes.Proofs.Substitution
import NominalTypes.Proofs.Pattern.Renaming
import NominalTypes.Proofs.Pattern.Reading
import NominalTypes.Proofs.Hygiene
import NominalTypes.Proofs.Building.Accepted
import NominalTypes.Proofs.AncestrySize
import NominalTypes.Proofs.ChangedInputs
import NominalTypes.Proofs.CommonAncestors.Deepest
import NominalTypes.Proofs.Building.Introduced
import NominalTypes.Proofs.DeclaredNames
import NominalTypes.Proofs.SelfReferences
import NominalTypes.Proofs.Denotation
import NominalTypes.Proofs.Building.Histories
import NominalTypes.Proofs.Scoping
import NominalTypes.Proofs.RepeatedInterfaces
import NominalTypes.Proofs.InterfaceDepths
import NominalTypes.Proofs.TypeExpr.Faults
import NominalTypes.Proofs.Universes
import NominalTypes.Proofs.Interning
import NominalTypes.Proofs.BaseChains
import NominalTypes.Proofs.Building.Arguments
import NominalTypes.Proofs.OpenTypes
import NominalTypes.Proofs.Termination.Runs
import NominalTypes.Proofs.Termination.Instantiation
import NominalTypes.Proofs.Termination.Declaration
import NominalTypes.Proofs.Termination
