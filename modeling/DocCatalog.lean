import DocCatalog.CommandLine.Run
import DocCatalog.Main
import DocCatalog.Proofs.Comment.TagName
import DocCatalog.Proofs.Builder.Accounts
import DocCatalog.Proofs.Builder.Layouts
import DocCatalog.Proofs.Namespace.Filing
import DocCatalog.Proofs.Builder.Lookup
import DocCatalog.Proofs.Builder.LastTags
import DocCatalog.Proofs.Corpus.Composition
import DocCatalog.Proofs.Source.Opaque
import DocCatalog.Proofs.Router.Refinement
import DocCatalog.Proofs.Catalog.TreeJson
import DocCatalog.Proofs.Namespace.Calls
import DocCatalog.Proofs.Catalog.WellFormed
import DocCatalog.Proofs.Param.Parts
import DocCatalog.Proofs.Param.Conservation
import DocCatalog.Proofs.Param.Stability
import DocCatalog.Proofs.Builder.Contents
import DocCatalog.Proofs.Comment.Marks
import DocCatalog.Proofs.Comment.RawTags
import DocCatalog.Proofs.Comment.Writing
import DocCatalog.Proofs.CommandLine.TagFilter
import DocCatalog.Proofs.Event.Listing
import DocCatalog.Proofs.Outline.Items
import DocCatalog.Proofs.Text.Parts
import DocCatalog.Proofs.Outline.Colour
import DocCatalog.Proofs.Namespace.Spaces
import DocCatalog.Proofs.Outline.Places
import DocCatalog.Proofs.Outline.Text
import DocCatalog.Proofs.Files.Name
import DocCatalog.Proofs.Text.Bytes
import DocCatalog.Proofs.Files.Walk
import DocCatalog.Proofs.Files.Search
import DocCatalog.Proofs.Comment.Margin
import DocCatalog.Proofs.Comment.Delimiters
import DocCatalog.Proofs.Toml.Line
import DocCatalog.Proofs.Files.ReadBack
import DocCatalog.Proofs.Config.Saving
import DocCatalog.Proofs.Text.Offset
import DocCatalog.Proofs.Comment.Offsets
import DocCatalog.Proofs.Source.Offsets
