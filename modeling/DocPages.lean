import DocPages.Command.Arguments
import DocPages.Command.Inputs
import DocPages.Command.Reach
import DocPages.Command.Run
import DocPages.Comment
import DocPages.Declaration
import DocPages.Files.Disk
import DocPages.Files.Glob
import DocPages.Files.Path
import DocPages.Files.Tree
import DocPages.Log
import DocPages.Main
import DocPages.Markup.Character
import DocPages.Markup.Document
import DocPages.Markup.Fault
import DocPages.Markup.Reader
import DocPages.Markup.Reference
import DocPages.Markup.Tag
import DocPages.Page.Document
import DocPages.Page.Fragment
import DocPages.Page.Plan
import DocPages.Proofs.BlockComments
import DocPages.Proofs.Braces
import DocPages.Proofs.CheckedHeaders
import DocPages.Proofs.CheckedMembers
import DocPages.Proofs.CheckedReading
import DocPages.Proofs.CheckedSkips
import DocPages.Proofs.CheckedSteps
import DocPages.Proofs.CommentEntries
import DocPages.Proofs.CommentScope
import DocPages.Proofs.DiskChanges
import DocPages.Proofs.Emission
import DocPages.Proofs.Entries
import DocPages.Proofs.Equations
import DocPages.Proofs.Escaping
import DocPages.Proofs.FileRuns
import DocPages.Proofs.FirstTokens
import DocPages.Proofs.FolderInputs
import DocPages.Proofs.FolderPatterns
import DocPages.Proofs.GenericValues
import DocPages.Proofs.HeaderEnds
import DocPages.Proofs.HtmlTags
import DocPages.Proofs.InputOrder
import DocPages.Proofs.Lexing
import DocPages.Proofs.LineBreaks
import DocPages.Proofs.MarkdownTables
import DocPages.Proofs.MarkupReading
import DocPages.Proofs.MemberHeaders
import DocPages.Proofs.MemberLayout
import DocPages.Proofs.Moves
import DocPages.Proofs.Nesting
import DocPages.Proofs.OneLine
import DocPages.Proofs.PathParts
import DocPages.Proofs.Places
import DocPages.Proofs.Policies
import DocPages.Proofs.PrintedHeaders
import DocPages.Proofs.PrintedReach
import DocPages.Proofs.PrintedSteps
import DocPages.Proofs.Printing
import DocPages.Proofs.PropertyComments
import DocPages.Proofs.Reading
import DocPages.Proofs.Reformatting
import DocPages.Proofs.Respelling
import DocPages.Proofs.RoundTrip
import DocPages.Proofs.SectionLinks
import DocPages.Proofs.Sections
import DocPages.Proofs.Shape
import DocPages.Proofs.Snippets
import DocPages.Proofs.SourceUnits
import DocPages.Proofs.Spelling
import DocPages.Proofs.TokenEnds
import DocPages.Proofs.TokenTexts
import DocPages.Proofs.Traversal
import DocPages.Proofs.TreeGrammar
import DocPages.Proofs.Trivia
import DocPages.Proofs.TypeArguments
import DocPages.Proofs.TypeHeaders
import DocPages.Proofs.TypedMembers
import DocPages.Proofs.UnitTurns
import DocPages.Render.Anchor
import DocPages.Render.Format
import DocPages.Render.Html
import DocPages.Render.Markdown
import DocPages.Source.Arena
import DocPages.Source.Header
import DocPages.Source.Lexeme
import DocPages.Source.Node
import DocPages.Source.Reach
import DocPages.Source.Snippet
import DocPages.Source.Step
import DocPages.Source.Token
import DocPages.Source.Tree
import DocPages.Unicode.Alphabetic
import DocPages.Unicode.Blank
import DocPages.Unicode.CodeRange
import DocPages.Unicode.Letter
import DocPages.Unicode.LowerCase
