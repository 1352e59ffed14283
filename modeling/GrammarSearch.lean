import GrammarSearch.Grammar.Compilation
import GrammarSearch.Json.Values
import GrammarSearch.Rule.Numbering
import GrammarSearch.Search.First
import GrammarSearch.Proofs.MemoContents
import GrammarSearch.Proofs.PlainSearch
import GrammarSearch.Proofs.Precedence
import GrammarSearch.Proofs.SearchRules
import GrammarSearch.Proofs.History
import GrammarSearch.Proofs.MemoSoundness
import GrammarSearch.Proofs.Candidates
import GrammarSearch.Proofs.EarlyExit
import GrammarSearch.Proofs.CandidateList
import GrammarSearch.Proofs.FirstBest
import GrammarSearch.Proofs.Overlooked
import GrammarSearch.Proofs.Congruence
import GrammarSearch.Proofs.MemoFreeSearch
import GrammarSearch.Proofs.EarlyExitDepth
import GrammarSearch.Proofs.MemoMoments
import GrammarSearch.Proofs.MemoBounds
import GrammarSearch.Proofs.MemoAnswers
import GrammarSearch.Proofs.SessionMemo
import GrammarSearch.Proofs.Origin
import GrammarSearch.Proofs.InStep
import GrammarSearch.Proofs.InjectionGating
import GrammarSearch.Proofs.CompilationFrame
import GrammarSearch.Proofs.IncludeMeaning
import GrammarSearch.Proofs.LexicalScoping
import GrammarSearch.Proofs.PrintedSelectors
import GrammarSearch.Proofs.SelectorRoundTrip
import GrammarSearch.Proofs.CompiledContents
import GrammarSearch.Proofs.ClosedTrees
import GrammarSearch.Proofs.InjectionOrder
import GrammarSearch.Proofs.RelistedGrammars
import GrammarSearch.Proofs.RenumberedRules
import GrammarSearch.Proofs.RepositoryOrder
import GrammarSearch.Proofs.DepthLimit
import GrammarSearch.Proofs.RememberedWeights
import GrammarSearch.Proofs.ClosingDelimiters
import GrammarSearch.Proofs.SelectorWeights
import GrammarSearch.Proofs.TopLevelChoices
import GrammarSearch.Proofs.TemplateOffsets
import GrammarSearch.Proofs.SelectorCursor
import GrammarSearch.Proofs.MergedOutcomes
import GrammarSearch.Proofs.KeptPriority
import GrammarSearch.Proofs.BoxedInjections
import GrammarSearch.Proofs.FurtherScopes
import GrammarSearch.Proofs.LosslessQuoting
import GrammarSearch.Proofs.NamedGroups
import GrammarSearch.Proofs.WrittenInjections
import GrammarSearch.Proofs.InjectionTies
import GrammarSearch.Proofs.JoinedPaths
import GrammarSearch.Proofs.GroupChains
