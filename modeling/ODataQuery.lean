import ODataQuery.Main
import ODataQuery.Proofs.OperatorNames
import ODataQuery.Proofs.Layout
import ODataQuery.Proofs.Catalogue
import ODataQuery.Proofs.PatternSlots
import ODataQuery.Proofs.PatternFilling
import ODataQuery.Proofs.Rendering
import ODataQuery.Proofs.Rules
import ODataQuery.Proofs.LeafTexts
import ODataQuery.Proofs.Composition
import ODataQuery.Proofs.DepthLimit
import ODataQuery.Proofs.Traversal
import ODataQuery.Proofs.FirstProblem
import ODataQuery.Proofs.Unseen
import ODataQuery.Proofs.Labelling
import ODataQuery.Proofs.LiteralIndependence
import ODataQuery.Proofs.Placeholder
import ODataQuery.Proofs.Substitution
import ODataQuery.Proofs.Sites
import ODataQuery.Proofs.Occurrences
import ODataQuery.Proofs.FirstOccurrences
import ODataQuery.Proofs.Brackets
import ODataQuery.Proofs.Parting
import ODataQuery.Proofs.Readability
import ODataQuery.Proofs.Spelling
import ODataQuery.Proofs.Sessions
import ODataQuery.Proofs.SessionList
import ODataQuery.Proofs.RenderingEvents
import ODataQuery.Proofs.CompileLog
import ODataQuery.Proofs.JsonReaders
import ODataQuery.Proofs.JsonWriting
import ODataQuery.Proofs.JsonGrammar
import ODataQuery.Proofs.JsonSkipping
import ODataQuery.Proofs.JsonRecords
import ODataQuery.Proofs.JsonTrees
import ODataQuery.Proofs.JsonNesting
import ODataQuery.Proofs.JsonSpellings
import ODataQuery.Proofs.JsonUniqueness
import ODataQuery.Proofs.JsonOptions
import ODataQuery.Proofs.JsonReport
import ODataQuery.Proofs.PlainReport
import ODataQuery.Proofs.Arguments
import ODataQuery.Proofs.ArgumentForms
import ODataQuery.Proofs.ArgumentOrder
import ODataQuery.Proofs.GenerousLimit
import ODataQuery.Proofs.Outcomes
