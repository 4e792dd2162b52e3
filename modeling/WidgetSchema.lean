import WidgetSchema.Main
import WidgetSchema.Proofs.Absence
import WidgetSchema.Proofs.AbsenceTermination
import WidgetSchema.Proofs.AbsenceTest
import WidgetSchema.Proofs.AbsentValues
import WidgetSchema.Proofs.ActionOutcomes
import WidgetSchema.Proofs.Actions
import WidgetSchema.Proofs.ActiveContainers
import WidgetSchema.Proofs.Ancestry
import WidgetSchema.Proofs.Associativity
import WidgetSchema.Proofs.BatchOrder
import WidgetSchema.Proofs.CheckTermination
import WidgetSchema.Proofs.ClosedMemos
import WidgetSchema.Proofs.CombinedFields
import WidgetSchema.Proofs.CompletedArguments
import WidgetSchema.Proofs.ConflictReports
import WidgetSchema.Proofs.CycleReports
import WidgetSchema.Proofs.CyclicValues
import WidgetSchema.Proofs.DanglingNames
import WidgetSchema.Proofs.DepthErrors
import WidgetSchema.Proofs.Derivation
import WidgetSchema.Proofs.DescendantValues
import WidgetSchema.Proofs.ErrorPlaces
import WidgetSchema.Proofs.ExitCodes
import WidgetSchema.Proofs.FailedResolutions
import WidgetSchema.Proofs.FailurePaths
import WidgetSchema.Proofs.FieldClashes
import WidgetSchema.Proofs.FieldDeclarations
import WidgetSchema.Proofs.FieldOrder
import WidgetSchema.Proofs.FieldQuestions
import WidgetSchema.Proofs.FieldTable
import WidgetSchema.Proofs.FirstWrongToken
import WidgetSchema.Proofs.Grammar
import WidgetSchema.Proofs.Histories
import WidgetSchema.Proofs.Independence
import WidgetSchema.Proofs.InlineIntersections
import WidgetSchema.Proofs.Labels
import WidgetSchema.Proofs.LedgerGrowth
import WidgetSchema.Proofs.LexemeSteps
import WidgetSchema.Proofs.LexemeTexts
import WidgetSchema.Proofs.Lineage
import WidgetSchema.Proofs.LongNumbers
import WidgetSchema.Proofs.MemberGroups
import WidgetSchema.Proofs.MemberOrder
import WidgetSchema.Proofs.MemoDerivation
import WidgetSchema.Proofs.MemoInvariants
import WidgetSchema.Proofs.MentionedNames
import WidgetSchema.Proofs.MostDerived
import WidgetSchema.Proofs.NameAndSchema
import WidgetSchema.Proofs.NameDenotation
import WidgetSchema.Proofs.NestingBound
import WidgetSchema.Proofs.OverridingLines
import WidgetSchema.Proofs.ParserGrammar
import WidgetSchema.Proofs.RawEntries
import WidgetSchema.Proofs.Redeclaration
import WidgetSchema.Proofs.RegistryGrowth
import WidgetSchema.Proofs.RegistryRuns
import WidgetSchema.Proofs.RenderParse
import WidgetSchema.Proofs.ReplacedReferences
import WidgetSchema.Proofs.ResolutionOutcomes
import WidgetSchema.Proofs.SameDefinitions
import WidgetSchema.Proofs.Satisfaction
import WidgetSchema.Proofs.SharedAnswers
import WidgetSchema.Proofs.ShortDocuments
import WidgetSchema.Proofs.SpecializedArguments
import WidgetSchema.Proofs.StructArrivals
import WidgetSchema.Proofs.Supertypes
import WidgetSchema.Proofs.TableSpellings
import WidgetSchema.Proofs.TagBoundary
import WidgetSchema.Proofs.TagExtraction
import WidgetSchema.Proofs.TokenCover
import WidgetSchema.Proofs.TokenSpacing
import WidgetSchema.Proofs.TypeAliases
import WidgetSchema.Proofs.UnfoldingBound
import WidgetSchema.Proofs.ValueCopies
import WidgetSchema.Proofs.VerdictIndependence
import WidgetSchema.Proofs.VerdictMeaning
import WidgetSchema.Sharing.Session
