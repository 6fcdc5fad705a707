import IdlCompiler.Backend.BindingView
import IdlCompiler.Backend.ClassView
import IdlCompiler.Backend.Context
import IdlCompiler.Backend.Dialect
import IdlCompiler.Backend.Requirement
import IdlCompiler.CommandLine.Options
import IdlCompiler.CommandLine.Run
import IdlCompiler.Config.Basic
import IdlCompiler.Config.Document
import IdlCompiler.Config.Output
import IdlCompiler.Config.Toml
import IdlCompiler.Config.Toml.Number
import IdlCompiler.Config.Toml.Reader
import IdlCompiler.Config.Toml.Statement
import IdlCompiler.Config.Toml.Tables
import IdlCompiler.Config.Yaml
import IdlCompiler.Config.Yaml.Layout
import IdlCompiler.Config.Yaml.Meaning
import IdlCompiler.Config.Yaml.Node
import IdlCompiler.Config.Yaml.Source
import IdlCompiler.Config.Yaml.Spelling
import IdlCompiler.Config.Yaml.Tag
import IdlCompiler.Config.Yaml.Token
import IdlCompiler.Decimal
import IdlCompiler.Declaration.Basic
import IdlCompiler.Declaration.Json
import IdlCompiler.Declaration.Load
import IdlCompiler.Declaration.Merge
import IdlCompiler.Declaration.Printer
import IdlCompiler.Declaration.Reader
import IdlCompiler.Declaration.Variant
import IdlCompiler.Dependency.Declarations
import IdlCompiler.Dependency.Graph
import IdlCompiler.Dependency.Order
import IdlCompiler.Diagnostic
import IdlCompiler.Error
import IdlCompiler.ExtAttr.Basic
import IdlCompiler.ExtAttr.Json
import IdlCompiler.ExtAttr.Rule
import IdlCompiler.ExtAttr.Schema
import IdlCompiler.Files.FileTree
import IdlCompiler.Files.Path
import IdlCompiler.Files.Write
import IdlCompiler.IdlType.Basic
import IdlCompiler.IdlType.Reader
import IdlCompiler.Json.Basic
import IdlCompiler.Json.Printer
import IdlCompiler.Json.Reader
import IdlCompiler.Log
import IdlCompiler.Main
import IdlCompiler.Moment
import IdlCompiler.Outcome
import IdlCompiler.Pos
import IdlCompiler.Proofs.Declaration.Load
import IdlCompiler.Proofs.Declaration.MemberNames
import IdlCompiler.Proofs.Declaration.Merge
import IdlCompiler.Proofs.Dependency.Construction
import IdlCompiler.Proofs.Dependency.Emission
import IdlCompiler.Proofs.Dependency.Order
import IdlCompiler.Proofs.Dependency.Reachability
import IdlCompiler.Proofs.Grammar.Bodies
import IdlCompiler.Proofs.Grammar.Cursor
import IdlCompiler.Proofs.Grammar.Derivation
import IdlCompiler.Proofs.Grammar.ExtAttrs
import IdlCompiler.Proofs.Grammar.FileEnd
import IdlCompiler.Proofs.Grammar.Files
import IdlCompiler.Proofs.Grammar.Meaning
import IdlCompiler.Proofs.Grammar.Members
import IdlCompiler.Proofs.Grammar.Types
import IdlCompiler.Proofs.Grammar.Uniqueness
import IdlCompiler.Proofs.RoundTrip.Blocks
import IdlCompiler.Proofs.RoundTrip.Declarations
import IdlCompiler.Proofs.RoundTrip.Lines
import IdlCompiler.Proofs.RoundTrip.Loading
import IdlCompiler.Proofs.RoundTrip.Members
import IdlCompiler.Proofs.RoundTrip.Positions
import IdlCompiler.Proofs.RoundTrip.Spelling
import IdlCompiler.Proofs.RoundTrip.Types
import IdlCompiler.Registry
import IdlCompiler.Scalar
import IdlCompiler.Template.Directive
import IdlCompiler.Template.Error
import IdlCompiler.Template.Render
import IdlCompiler.Template.Scope
import IdlCompiler.Template.Tree
import IdlCompiler.Template.Value
import IdlCompiler.Text.Base64
import IdlCompiler.Text.Blank
import IdlCompiler.Text.Cut
import IdlCompiler.Text.Glyph
import IdlCompiler.Text.Integer
import IdlCompiler.Text.LetterCase
import IdlCompiler.Text.Mark
import IdlCompiler.Text.Printable
import IdlCompiler.Text.Quoted
import IdlCompiler.Token.Basic
import IdlCompiler.Token.Cursor
import IdlCompiler.Token.Lexer
import IdlCompiler.Token.Literal
import IdlCompiler.Proofs.Dependency.Tolerance
import IdlCompiler.Proofs.Dependency.Declarations
import IdlCompiler.Proofs.Template.Paths
import IdlCompiler.Proofs.Config.Outputs
import IdlCompiler.Proofs.Files.FileTree
import IdlCompiler.Proofs.Run.Atomicity
import IdlCompiler.Proofs.Template.Layout
import IdlCompiler.Proofs.RoundTrip.PlainArgs
import IdlCompiler.Proofs.Reading.Comparison
import IdlCompiler.Proofs.Reading.Readers
import IdlCompiler.Proofs.Reading.Confinement
import IdlCompiler.Proofs.Layout.Alike
import IdlCompiler.Proofs.Declaration.Concatenation
import IdlCompiler.Proofs.Declaration.Attachment
import IdlCompiler.Proofs.ExtAttr.Installation
import IdlCompiler.Proofs.ExtAttr.Values
import IdlCompiler.Proofs.Dependency.Completeness
import IdlCompiler.Proofs.Dependency.SourceOrder
import IdlCompiler.Proofs.Dependency.DepthRange
import IdlCompiler.Proofs.Token.Tiles
import IdlCompiler.Proofs.Layout.Blanks
import IdlCompiler.Proofs.Backend.Spelling
import IdlCompiler.Proofs.Backend.VariantAttribute
import IdlCompiler.Proofs.Backend.UnknownTypes
import IdlCompiler.Proofs.Template.Continuation
import IdlCompiler.Proofs.Declaration.Division
import IdlCompiler.Proofs.Template.Balance
import IdlCompiler.Proofs.Template.SectionLines
import IdlCompiler.Proofs.Template.SelfReference
import IdlCompiler.Proofs.ExtAttr.Validation
import IdlCompiler.Proofs.Declaration.Refusals
import IdlCompiler.Proofs.Token.Tiling
import IdlCompiler.Proofs.Token.Unclosed
import IdlCompiler.Proofs.RoundTrip.TypeText
import IdlCompiler.Proofs.Backend.Includes
import IdlCompiler.Proofs.Backend.Annotations
import IdlCompiler.Proofs.Config.Application
import IdlCompiler.Proofs.RoundTrip.Literals
import IdlCompiler.Proofs.Template.Scopes
import IdlCompiler.Proofs.Backend.EnumListing
