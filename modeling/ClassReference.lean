import ClassReference.Text.Blank
import ClassReference.Text.Lines
import ClassReference.Text.Cut
import ClassReference.Text.Alphanumeric
import ClassReference.Text.Printable
import ClassReference.Text.Quoted
import ClassReference.Log
import ClassReference.Comment
import ClassReference.Comment.Scanner
import ClassReference.Tag
import ClassReference.Tag.Reading
import ClassReference.DocBlock
import ClassReference.Description
import ClassReference.Link
import ClassReference.Link.Expansion
import ClassReference.Description.Summary
import ClassReference.Entity
import ClassReference.Classification
import ClassReference.Value
import ClassReference.Json
import ClassReference.Json.Reading
import ClassReference.Value.Json
import ClassReference.Entity.Data
import ClassReference.Hierarchy.Ancestors
import ClassReference.Hierarchy.Inheritance
import ClassReference.Hierarchy.Selection
import ClassReference.Hierarchy.Resolution
import ClassReference.Package
import ClassReference.Model
import ClassReference.Session
import ClassReference.Page.Fragment
import ClassReference.Page.ClassPage
import ClassReference.Page.TreePage
import ClassReference.Text.Encoding
import ClassReference.Path
import ClassReference.FileTree
import ClassReference.SourceFile
import ClassReference.Document
import ClassReference.Config
import ClassReference.SourceList
import ClassReference.Collection
import ClassReference.Manifest
import ClassReference.TemplateSet
import ClassReference.Template.BuiltinSet
import ClassReference.Template
import ClassReference.Site
import ClassReference.Log.Format
import ClassReference.Log.Handler
import ClassReference.World
import ClassReference.Log.Setup
import ClassReference.Text.Similarity
import ClassReference.Text.Styling
import ClassReference.CommandLine.Grammar
import ClassReference.CommandLine.Help
import ClassReference.CommandLine.Run
import ClassReference.Main
import ClassReference.Proofs.MemberLists
import ClassReference.Proofs.ParentWalk
import ClassReference.Proofs.Ancestors
import ClassReference.Proofs.Selection
import ClassReference.Proofs.Settling
import ClassReference.Proofs.Cycles
import ClassReference.Proofs.ListedClasses
import ClassReference.Proofs.InheritedMembers
import ClassReference.Proofs.Building
import ClassReference.Proofs.CollectionOrder
import ClassReference.Proofs.CommentReading
import ClassReference.Proofs.IncrementalScanning
import ClassReference.Proofs.DeclaredHalves
import ClassReference.Proofs.History
import ClassReference.Proofs.StoppedResolution
import ClassReference.Proofs.FailedBuilds
import ClassReference.Proofs.ParentCoherence
import ClassReference.Proofs.Definitions
import ClassReference.Proofs.PackageTree
import ClassReference.Proofs.PrivateClasses
import ClassReference.Proofs.PageLinks
import ClassReference.Proofs.TextParts
import ClassReference.Proofs.InlineLinks
import ClassReference.Proofs.TagLines
import ClassReference.Proofs.WrittenClasses
import ClassReference.Proofs.WrittenSources
import ClassReference.Proofs.WrittenComments
import ClassReference.Proofs.JoinedComments
import ClassReference.Proofs.WrittenItems
import ClassReference.Proofs.TagOrder
import ClassReference.Proofs.RenderedLinks
import ClassReference.Proofs.LinkDivision
import ClassReference.Proofs.Markup
import ClassReference.Proofs.Summaries
import ClassReference.Proofs.Ownership
import ClassReference.Proofs.SolidNames
import ClassReference.Proofs.FileChanges
import ClassReference.Proofs.Utf8
import ClassReference.Proofs.EncodedTexts
import ClassReference.Proofs.SourceReading
import ClassReference.Proofs.BuiltinTemplates
import ClassReference.Proofs.Runs
import ClassReference.Proofs.CollectedFiles
import ClassReference.Proofs.PageAnchors
import ClassReference.Proofs.SiteWriting
import ClassReference.Proofs.SitePages
import ClassReference.Proofs.PackageNames
import ClassReference.Proofs.JsonTexts
import ClassReference.Proofs.JsonReading
import ClassReference.Proofs.ModelDump
import ClassReference.Proofs.TemplateDescriptions
