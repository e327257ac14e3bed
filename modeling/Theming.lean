import Theming.CommandLine.Run
import Theming.Main
import Theming.Proofs.Css.Merge
import Theming.Proofs.Inheritance
import Theming.Proofs.Compile.Vocabulary
import Theming.Proofs.Success
import Theming.Proofs.Compile.StyleSets
import Theming.Proofs.Compile.Boxes
import Theming.Proofs.Compile.Extends
import Theming.Proofs.Css.Stylesheet
import Theming.Proofs.Compile.Requests
import Theming.Proofs.Manager
import Theming.Proofs.Css.Order
import Theming.Proofs.Compile.Lists
import Theming.Proofs.Cycles
import Theming.Proofs.Failure
import Theming.Proofs.Variables.Cycles
import Theming.Proofs.Compile.Failures
import Theming.Proofs.Refinement
import Theming.Proofs.Compile.References
import Theming.Proofs.Compile.BoxCycles
import Theming.Proofs.Compile.SetReferences
import Theming.Proofs.Compile.Inlining
import Theming.Proofs.Compile.Layering
import Theming.Proofs.Compile.Chains
import Theming.Proofs.Reading.Proper
import Theming.Proofs.Reading.Boxes
import Theming.Proofs.Css.RuleList
import Theming.Proofs.Css.Nesting
import Theming.Proofs.Compile.RuleText
import Theming.Proofs.Compile.StateOrder
import Theming.Proofs.Compile.NestedStates
import Theming.Proofs.Compile.Kinds
import Theming.Proofs.Css.Collected
import Theming.Proofs.Css.Cached
import Theming.Proofs.Compile.History
import Theming.Proofs.ClassRules
import Theming.Proofs.Merging
import Theming.Proofs.Pool.History
import Theming.Proofs.Files.Listing
import Theming.Proofs.Pool.Order
import Theming.Proofs.Reading.Shapes
import Theming.Proofs.Reading.Accepted
import Theming.Proofs.Reading.Merged
import Theming.Proofs.Compile.SetChains
import Theming.Proofs.Compile.Yields
import Theming.Proofs.Compile.Variants
import Theming.Proofs.Compile.Parts
import Theming.Proofs.Agreement
import Theming.Proofs.Compile.Bare
import Theming.Proofs.Reading.Lacking
import Theming.Proofs.Reading.OverlookedSets
import Theming.Proofs.Reading.Overlooked
import Theming.Proofs.Compile.Unset
import Theming.Proofs.Compile.SetCycles
import Theming.Proofs.Compile.Referenced
import Theming.Proofs.Pool.Failures
import Theming.Proofs.Compile.Backdrops
import Theming.Proofs.Variables.Seams
import Theming.Proofs.Variables.Segments
import Theming.Proofs.Css.Levels
import Theming.Proofs.Compile.InheritedProps
