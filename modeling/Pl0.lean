import Pl0.Common
import Pl0.LinkedCells
import Pl0.CallRuns
import Pl0.StateExcept
import Pl0.SymbolTable
import Pl0.SymbolTableChains
import Pl0.SymbolTableIsolation
import Pl0.SymbolCounters
import Pl0.SymbolTableNodes
import Pl0.SymbolTableRing
import Pl0.SymbolTableSimulation
import Pl0.VirtualMachine
import Pl0.VirtualMachineStep
import Pl0.ActivationRecordDiscipline
import Pl0.FrameSeparators
import Pl0.LongestMatch
import Pl0.Dfa
import Pl0.DfaRuns
import Pl0.LexicalGrammar
import Pl0.Tokenization
import Pl0.TokenSet
import Pl0.TokenSetCells
import Pl0.AstNode
import Pl0.GenCode
import Pl0.ParseState
import Pl0.Parse
import Pl0.GenReplay
import Pl0.ParseRuns
import Pl0.Compile
import Pl0.ControlFlow
import Pl0.CodeRuns
import Pl0.StatementFlow
import Pl0.StatementRuns
import Pl0.StatementExit
import Pl0.Linker
import Pl0.CodeLayout
import Pl0.ProcedureReturn
import Pl0.FrameLayout
import Pl0.LexicalScope
import Pl0.ScopeRuns
import Pl0.LexicalScoping
import Pl0.Operands
import Pl0.StaticChain
import Pl0.StaticLinks
import Pl0.BlockSegments
import Pl0.OperandActivations
import Pl0.DeclarationOrder
import Pl0.NameUses
import Pl0.KindChecking
import Pl0.ParseProgress
import Pl0.ParserTermination
import Pl0.ParserCalls
import Pl0.ScannerRuns
import Pl0.LexicalErrors
import Pl0.EndOfFile
import Pl0.TokenFile
import Pl0.ScannerTurns
import Pl0.SourcePositions
import Pl0.LexemeBuffer
import Pl0.CompilerDriver
import Pl0.MarkedText
import Pl0.SyntaxTree
import Pl0.Ebnf
import Pl0.Grammar
import Pl0.TokenStream
import Pl0.PanicMode
import Pl0.Reading
import Pl0.LegalTree
import Pl0.ParsedTrees
import Pl0.ExpressionReading
import Pl0.StatementReading
import Pl0.BlockReading
import Pl0.DanglingElse
import Pl0.GrammarCompleteness
import Pl0.ExpressionSoundness
import Pl0.StatementSoundness
import Pl0.BlockSoundness
import Pl0.GrammarSoundness
import Pl0.SilentAcceptance
import Pl0.DocumentedRecoveries
import Pl0.EmptyStatements
import Pl0.AstCleanup
import Pl0.Registers
import Pl0.StackAccess
import Pl0.VariableHomes
import Pl0.MemoryBounds
import Pl0.VisibleLookup
import Pl0.StoredAttributes
import Pl0.ExpressionValue
import Pl0.CodeExecution
import Pl0.ExpressionExecution
import Pl0.WriteOutput
import Pl0.RegisterDiscipline
import Pl0.RegisterNeed
import Pl0.LinkedProgram
import Pl0.MachineCodeFile
import Pl0.ProcedureNumbering
import Pl0.StoredDeclarations
import Pl0.CodeSize
import Pl0.CompileCapacity
import Pl0.CodeRows
import Pl0.ParserSurvival
import Pl0.StatementMeaning
import Pl0.MachineRuns
import Pl0.StatementExecution
import Pl0.MainNames
import Pl0.ProgramTranslation
import Pl0.Unparse
import Pl0.WordSpacing
import Pl0.UnparseTokens
import Pl0.Rereading
import Pl0.BlockRereading
import Pl0.UnparseRoundTrip
import Pl0.Misreading
import Pl0.UnparseExact
import Pl0.FrameStack
import Pl0.ScopedMeaning
import Pl0.ScopedNames
import Pl0.ScopedCode
import Pl0.ActivationStack
import Pl0.CallExecution
import Pl0.ProcedureTranslation
import Pl0.CountedRuns
import Pl0.EndlessExecution
import Pl0.CompiledFile
import Pl0.StateRelations
import Pl0.SeenTokens
import Pl0.CommentsIgnored
import Pl0.SymbolTableExit
import Pl0.SymbolTableOperations
import Pl0.SymbolTableListing
