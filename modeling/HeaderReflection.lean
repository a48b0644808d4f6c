import HeaderReflection.Run
import HeaderReflection.FileTree.Difference
import HeaderReflection.Main
import HeaderReflection.Proofs.Tokens.Places
import HeaderReflection.Proofs.Grammar.SourceOrder
import HeaderReflection.Proofs.FileTree.Spellings
import HeaderReflection.Proofs.WorkingSet.Closure
import HeaderReflection.Proofs.WorkingSet.Complete
import HeaderReflection.Proofs.Grammar.Groups
import HeaderReflection.Proofs.Grammar.Spelling
import HeaderReflection.Proofs.Grammar.WellFormed
import HeaderReflection.Proofs.Grammar.Readback.Attributes
import HeaderReflection.Proofs.Grammar.Readback.Members
import HeaderReflection.Proofs.Grammar.Readback.File
import HeaderReflection.Proofs.Grammar.ReadTrees
import HeaderReflection.Proofs.Grammar.RoundTrip
import HeaderReflection.Proofs.Layout.Comments
import HeaderReflection.Proofs.Registration.Decoding
import HeaderReflection.Proofs.Grammar.Skipping
import HeaderReflection.Proofs.Grammar.Failing
import HeaderReflection.Proofs.Grammar.Session
import HeaderReflection.Proofs.Grammar.Loops
import HeaderReflection.Proofs.Grammar.Resuming
import HeaderReflection.Proofs.WorkingSet.Output
import HeaderReflection.Proofs.FileTree.Below
import HeaderReflection.Proofs.WorkingSet.Recorded
import HeaderReflection.Proofs.Tokens.Closing
import HeaderReflection.Proofs.Tokens.Grammar
import HeaderReflection.Proofs.Grammar.Declarators
import HeaderReflection.Proofs.FileTree.Nodes
import HeaderReflection.Proofs.FileTree.Writing
import HeaderReflection.Proofs.Run.Effects
import HeaderReflection.Proofs.WorkingSet.LeftOut
import HeaderReflection.Proofs.Run.Agreement
import HeaderReflection.Proofs.Extraction.Prefixing
import HeaderReflection.Proofs.Grammar.AttributeForms
import HeaderReflection.Proofs.TypeText.Spacing
import HeaderReflection.Proofs.TypeText.Relexing
import HeaderReflection.Proofs.Grammar.ReadMembers
import HeaderReflection.Proofs.TypeText.Joints
import HeaderReflection.Proofs.Tokens.Beginnings
import HeaderReflection.Proofs.Tokens.Lines
import HeaderReflection.Proofs.Grammar.DirectiveLines
import HeaderReflection.Proofs.FileCache.History
import HeaderReflection.Proofs.Json.Readback
import HeaderReflection.Proofs.Json.ModelDump
import HeaderReflection.Proofs.Grammar.SoundTrees
import HeaderReflection.Proofs.Include.LiveLines
import HeaderReflection.Proofs.FileTree.Updating
import HeaderReflection.Proofs.FileTree.PathOrder
import HeaderReflection.Proofs.FileTree.WellFormed
import HeaderReflection.Proofs.FileTree.Reordered
import HeaderReflection.Proofs.Sources.SortedWalk
import HeaderReflection.Proofs.Include.Pattern
import HeaderReflection.Proofs.Include.LineGrammar
import HeaderReflection.Proofs.BuildReply.Loading
import HeaderReflection.Proofs.Grammar.MatchingRegion
import HeaderReflection.Proofs.Printer.TextOfLines
import HeaderReflection.Proofs.Printer.Scopes
