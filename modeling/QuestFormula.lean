import QuestFormula.Main
import QuestFormula.Parameter.Roll
import QuestFormula.Parameter.Stored
import QuestFormula.Quest.Manager
import QuestFormula.Proofs.Formula.Grammar
import QuestFormula.Proofs.Formula.Parser
import QuestFormula.Proofs.State.Catalog
import QuestFormula.Proofs.State.Lookup
import QuestFormula.Proofs.Formula.Bound
import QuestFormula.Proofs.Evaluator.Compilation
import QuestFormula.Proofs.Evaluator.Reads
import QuestFormula.Proofs.Evaluator.Folding
import QuestFormula.Proofs.Factory.History
import QuestFormula.Proofs.Lint.Compilation
import QuestFormula.Proofs.Factory.Transparency
import QuestFormula.Proofs.Factory.CompileOnce
import QuestFormula.Proofs.Formula.Display
import QuestFormula.Proofs.Formula.Lexeme
import QuestFormula.Proofs.Formula.FirstFault
import QuestFormula.Proofs.Factory.Spelling
import QuestFormula.Proofs.State.Inheritance
import QuestFormula.Proofs.Quest.Template
import QuestFormula.Proofs.Quest.Store
import QuestFormula.Proofs.Quest.Directory
import QuestFormula.Proofs.State.Embedding
import QuestFormula.Proofs.QuestFile.Format
import QuestFormula.Proofs.Lint.Directory
import QuestFormula.Proofs.Quest.Report
import QuestFormula.Proofs.Formula.InOrder
import QuestFormula.Proofs.Number.Order
import QuestFormula.Proofs.Number.Nearest
import QuestFormula.Proofs.Evaluator.Amounts
import QuestFormula.Proofs.Parameter.Roll
import QuestFormula.Proofs.Parameter.Rerolls
import QuestFormula.Proofs.Json.ReadBack
import QuestFormula.Proofs.Parameter.Saved
import QuestFormula.Proofs.Quest.Compilations
import QuestFormula.Proofs.State.Derivation
import QuestFormula.Proofs.Formula.Progress
import QuestFormula.Proofs.State.Index
import QuestFormula.Proofs.Number.Invariant
import QuestFormula.Proofs.Lint.Messages
import QuestFormula.Proofs.Lint.Text
