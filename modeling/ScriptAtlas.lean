import ScriptAtlas.Main
import ScriptAtlas.Query.Request
import ScriptAtlas.Proofs.Interleaving
import ScriptAtlas.Proofs.DeadCodeLimits
import ScriptAtlas.Proofs.Specifiers
import ScriptAtlas.Proofs.ExportedDeclarations
import ScriptAtlas.Proofs.Subtypes
import ScriptAtlas.Proofs.Implementations
import ScriptAtlas.Proofs.MemberOwnership
import ScriptAtlas.Proofs.AssignmentTargets
import ScriptAtlas.Proofs.TypeClosure
import ScriptAtlas.Proofs.MappingBases
import ScriptAtlas.Proofs.ConfigSelection
import ScriptAtlas.Proofs.InheritedMembers
import ScriptAtlas.Proofs.SettledPaths
import ScriptAtlas.Proofs.SubpathPatterns
import ScriptAtlas.Proofs.IndexOrder
import ScriptAtlas.Proofs.ConfusablePairs
import ScriptAtlas.Proofs.TypeTexts
import ScriptAtlas.Proofs.ReferenceSummaries
import ScriptAtlas.Proofs.Conditions
import ScriptAtlas.Proofs.EnumCounting
import ScriptAtlas.Proofs.NormalForms
