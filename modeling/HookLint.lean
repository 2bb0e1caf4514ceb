import HookLint.Graph.Labels
import HookLint.Log
import HookLint.Main
import HookLint.Proofs.Config.Layers
import HookLint.Proofs.Deps.Advice
import HookLint.Proofs.Deps.Climbing
import HookLint.Proofs.Flow.Designated
import HookLint.Proofs.Flow.Destructuring
import HookLint.Proofs.Flow.Precision
import HookLint.Proofs.Flow.Protected
import HookLint.Proofs.Graph.NaturalLoops
import HookLint.Proofs.Graph.Passing
import HookLint.Proofs.Order.Counting
import HookLint.Proofs.Order.Reversals
import HookLint.Proofs.Project.Gathering
import HookLint.Proofs.Unit.Nesting
import HookLint.Proofs.Unit.Recorded
