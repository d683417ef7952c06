import BrightDoc.Text.Word
import BrightDoc.Text.Lowercase
import BrightDoc.Text.Keyword
import BrightDoc.Text.Search
import BrightDoc.Tree.Statement
import BrightDoc.Line.Layout
import BrightDoc.Line.Declaration
import BrightDoc.Reader.Parse
import BrightDoc.Doc.Comment
import BrightDoc.Doc.Tag
import BrightDoc.Carrier.Plan
import BrightDoc.Session
import BrightDoc.Files.Glob
import BrightDoc.Command.Run
import BrightDoc.Main
import BrightDoc.Proofs.Reader.Sketch
import BrightDoc.Proofs.Reader.Simulation
import BrightDoc.Proofs.Reader.Errors
import BrightDoc.Proofs.Line.Recognised
import BrightDoc.Proofs.Reader.Places
import BrightDoc.Proofs.Reader.Marks
import BrightDoc.Proofs.Reader.Nesting
import BrightDoc.Proofs.Reader.Arrangement
import BrightDoc.Proofs.Reader.Matching
import BrightDoc.Proofs.Doc.Closers
import BrightDoc.Proofs.Doc.Tags
import BrightDoc.Proofs.Carrier.Blocks
import BrightDoc.Proofs.Reader.Plain
import BrightDoc.Proofs.Carrier.Lines
import BrightDoc.Proofs.Carrier.Pieces
import BrightDoc.Proofs.Carrier.Declarations
import BrightDoc.Proofs.Carrier.Entries
import BrightDoc.Proofs.Carrier.Conversion
import BrightDoc.Proofs.Reader.Bodies
import BrightDoc.Proofs.Reader.Gathering
import BrightDoc.Proofs.Reader.Translation
import BrightDoc.Proofs.Reader.Concatenation
import BrightDoc.Proofs.Carrier.Moved
import BrightDoc.Proofs.Carrier.Sequence
import BrightDoc.Proofs.Carrier.Paths
import BrightDoc.Proofs.Carrier.Introduced
import BrightDoc.Proofs.Sessions
import BrightDoc.Proofs.Tree.Recast
import BrightDoc.Proofs.Reader.Indifference
import BrightDoc.Proofs.Reader.Wrapping
import BrightDoc.Proofs.Line.Alike
import BrightDoc.Proofs.Reader.Skipping
import BrightDoc.Proofs.Carrier.Keys
import BrightDoc.Proofs.Histories
import BrightDoc.Proofs.Line.Literals
import BrightDoc.Proofs.Reader.Headers
import BrightDoc.Proofs.Command.Names
import BrightDoc.Proofs.Command.Outputs
import BrightDoc.Proofs.Reader.Annotations
import BrightDoc.Proofs.Reader.Dialects
import BrightDoc.Proofs.Line.Reindented
import BrightDoc.Proofs.Reader.Layout
import BrightDoc.Proofs.Carrier.Layout
import BrightDoc.Proofs.Command.Unparsable
import BrightDoc.Proofs.Files.Agreement
import BrightDoc.Proofs.Command.ArgumentOrder
import BrightDoc.Proofs.Carrier.Callables
import BrightDoc.Proofs.Doc.Escaping
import BrightDoc.Proofs.Doc.TagSites
import BrightDoc.Proofs.Carrier.EscapedParameters
import BrightDoc.Proofs.Doc.BracketedNames
import BrightDoc.Proofs.Line.Comments
import BrightDoc.Proofs.Reader.HeaderComments
import BrightDoc.Proofs.Doc.Verbatim
import BrightDoc.Proofs.Reader.Numbering
import BrightDoc.Proofs.Reader.IntegerMembers
import BrightDoc.Proofs.Reader.NamespaceNames
import BrightDoc.Proofs.Line.Initializers
import BrightDoc.Proofs.Reader.Initializers
import BrightDoc.Proofs.Line.MemberNames
import BrightDoc.Proofs.Reader.BodyEnds
import BrightDoc.Proofs.Line.ParameterLists
import BrightDoc.Proofs.Reader.FunctionEnds
import BrightDoc.Proofs.Line.WholeNames
import BrightDoc.Proofs.Command.RepeatedInputs
