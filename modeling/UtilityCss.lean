import UtilityCss.Dictionary.Action
import UtilityCss.Api.Service
import UtilityCss.Command.Run
import UtilityCss.Main
import UtilityCss.Proofs.Reference.Division
import UtilityCss.Proofs.Reference.Bare
import UtilityCss.Proofs.Merging.Categories
import UtilityCss.Proofs.Merging.Conservation
import UtilityCss.Proofs.Merging.Resumption
import UtilityCss.Proofs.Merging.Repetition
import UtilityCss.Proofs.Dictionary.Refinement
import UtilityCss.Proofs.Dictionary.Persistence
import UtilityCss.Proofs.Utility.Composition
import UtilityCss.Proofs.Classification.Agreement
import UtilityCss.Proofs.Classification.Ambiguous
import UtilityCss.Proofs.Variant.Prefixing
import UtilityCss.Proofs.Declaration.Reordering
import UtilityCss.Proofs.Conversion.Entry
import UtilityCss.Proofs.Conversion.Names
import UtilityCss.Proofs.Conversion.Accumulation
import UtilityCss.Proofs.Merging.Union
import UtilityCss.Proofs.Api.Refinement
import UtilityCss.Proofs.Dictionary.Cleanliness
import UtilityCss.Proofs.Command.Asking
import UtilityCss.Proofs.Command.Export
import UtilityCss.Proofs.Conversion.Characters
import UtilityCss.Proofs.Conversion.Surfaces
import UtilityCss.Proofs.Dictionary.Loading
import UtilityCss.Proofs.Dictionary.Batch
import UtilityCss.Proofs.Dictionary.Frame
import UtilityCss.Proofs.Api.Deletion
import UtilityCss.Proofs.Variant.Uniqueness
import UtilityCss.Proofs.Value.Origin
import UtilityCss.Proofs.Classification.Order
import UtilityCss.Proofs.Utility.Places
