import ApiSurface.Main
import ApiSurface.Proofs.Members
import ApiSurface.Proofs.WalkedFile
import ApiSurface.Proofs.Outline
import ApiSurface.Proofs.NumeralText
import ApiSurface.Proofs.JsonText
import ApiSurface.Proofs.TypeCodec
import ApiSurface.Proofs.DocumentText
import ApiSurface.Proofs.EntityIds
import ApiSurface.Proofs.Nesting
import ApiSurface.Proofs.IdClashes
import ApiSurface.Proofs.References
import ApiSurface.Proofs.FileRows
import ApiSurface.Proofs.PublicRows
import ApiSurface.Proofs.PackageGraph
import ApiSurface.Proofs.DottedNames
import ApiSurface.Proofs.ReexportQuery
import ApiSurface.Proofs.Publicity
import ApiSurface.Proofs.AncestorOrder
import ApiSurface.Proofs.PublicPart
import ApiSurface.Proofs.ReexportAgreement
import ApiSurface.Proofs.OrderFreedom
import ApiSurface.Proofs.ModuleScope
import ApiSurface.Proofs.CanonicalTypes
import ApiSurface.Proofs.RowTypes
import ApiSurface.Proofs.HookTrace
import ApiSurface.Proofs.ReadNumbers
import ApiSurface.Proofs.TreeContents
import ApiSurface.Proofs.TreeCodec
import ApiSurface.Proofs.TreeText
import ApiSurface.Proofs.DeclaredTypes
import ApiSurface.Proofs.ResultNames
import ApiSurface.Proofs.Ownership
import ApiSurface.Proofs.InferredSlots
import ApiSurface.Proofs.LiteralTypes
import ApiSurface.Proofs.UnionTypes
import ApiSurface.Proofs.TypeVariables
import ApiSurface.Proofs.WiderIndex
import ApiSurface.Proofs.MethodLookup
import ApiSurface.Proofs.ViewDescent
import ApiSurface.Proofs.StableView
import ApiSurface.Proofs.ReadDocument
import ApiSurface.Proofs.TypeOrder
import ApiSurface.Proofs.UnionLaws
import ApiSurface.Proofs.NamedResults
import ApiSurface.Proofs.DocstringLines
import ApiSurface.Proofs.GoogleSections
import ApiSurface.Proofs.OutermostCuts
import ApiSurface.Proofs.BracketDepth
import ApiSurface.Proofs.TypeModifiers
import ApiSurface.Proofs.TypeAlternatives
import ApiSurface.Proofs.DisplayedTypes
import ApiSurface.Proofs.NumpyHeaders
import ApiSurface.Proofs.NumpySections
import ApiSurface.Proofs.ValueSets
import ApiSurface.Proofs.NarrowedTypes
import ApiSurface.Proofs.ByteOffsets
import ApiSurface.Proofs.PackageEntries
import ApiSurface.Proofs.Destructuring
import ApiSurface.Proofs.ChosenMeanings
import ApiSurface.Proofs.RelativeImports
import ApiSurface.Proofs.CleanedText
import ApiSurface.Proofs.CutPositions
