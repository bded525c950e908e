import StyleBundle.Main
import StyleBundle.Proofs.Cache.Creation
import StyleBundle.Proofs.Cache.Interleaving
import StyleBundle.Proofs.Cache.Latest
import StyleBundle.Proofs.Cache.Overwrite
import StyleBundle.Proofs.Cache.Record
import StyleBundle.Proofs.Cache.Refinement
import StyleBundle.Proofs.Cache.Reuse
import StyleBundle.Proofs.Cache.Transparency
import StyleBundle.Proofs.Command.Listing
import StyleBundle.Proofs.Compile.Label
import StyleBundle.Proofs.Compile.Run
import StyleBundle.Proofs.Compile.Wording
import StyleBundle.Proofs.Dependency.Descent
import StyleBundle.Proofs.Dependency.MacroHook
import StyleBundle.Proofs.Dependency.Named
import StyleBundle.Proofs.Dependency.Reader
import StyleBundle.Proofs.Import.Agreement
import StyleBundle.Proofs.Import.Below
import StyleBundle.Proofs.Import.Flatten
import StyleBundle.Proofs.Import.Grammar
import StyleBundle.Proofs.Import.Mark
import StyleBundle.Proofs.Import.Origin
import StyleBundle.Proofs.Import.Outcome
import StyleBundle.Proofs.Import.Override
import StyleBundle.Proofs.Import.Substitution
import StyleBundle.Proofs.Transform.Verdict
