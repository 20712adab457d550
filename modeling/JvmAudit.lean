import JvmAudit.Assembler.Body
import JvmAudit.Assembler.Class
import JvmAudit.Assembler.Stubs
import JvmAudit.Assembler.Tables
import JvmAudit.Catalog.Basic
import JvmAudit.Catalog.Texts
import JvmAudit.Checker.Basic
import JvmAudit.Checker.Error
import JvmAudit.ClassFile.Annotations
import JvmAudit.ClassFile.Basic
import JvmAudit.ClassFile.Code
import JvmAudit.ClassFile.Constant
import JvmAudit.ClassFile.Error
import JvmAudit.ClassFile.Instruction
import JvmAudit.ClassFile.ModifiedUtf8
import JvmAudit.ClassFile.Parser
import JvmAudit.ClassFile.Pool
import JvmAudit.ClassFile.Reader
import JvmAudit.Classpath.Basic
import JvmAudit.Classpath.Cache
import JvmAudit.Classpath.Error
import JvmAudit.Classpath.Inquiry
import JvmAudit.Classpath.Lineage
import JvmAudit.Classpath.Source
import JvmAudit.Command.Arguments
import JvmAudit.Command.Check
import JvmAudit.Command.Init
import JvmAudit.Command.Inputs
import JvmAudit.Command.ListBundled
import JvmAudit.Command.Program
import JvmAudit.Command.Request
import JvmAudit.Command.Session
import JvmAudit.Descriptor.Basic
import JvmAudit.Descriptor.Parser
import JvmAudit.Descriptor.Spelling
import JvmAudit.Json
import JvmAudit.Main
import JvmAudit.Pattern
import JvmAudit.Proofs.Assembler.Attributes
import JvmAudit.Proofs.Assembler.Bodies
import JvmAudit.Proofs.Assembler.Body
import JvmAudit.Proofs.Assembler.Class
import JvmAudit.Proofs.Assembler.Layout
import JvmAudit.Proofs.Assembler.Members
import JvmAudit.Proofs.Assembler.Symbols
import JvmAudit.Proofs.Assembler.Tables
import JvmAudit.Proofs.Catalog.Basic
import JvmAudit.Proofs.Catalog.Canonical
import JvmAudit.Proofs.Catalog.Plain
import JvmAudit.Proofs.Catalog.Version
import JvmAudit.Proofs.Checker.Lifecycle
import JvmAudit.Proofs.Checker.Reachable
import JvmAudit.Proofs.Checker.Refusal
import JvmAudit.Proofs.Checker.Run
import JvmAudit.Proofs.Checker.Silence
import JvmAudit.Proofs.ClassFile.Annotations
import JvmAudit.Proofs.ClassFile.Code
import JvmAudit.Proofs.ClassFile.Constant
import JvmAudit.Proofs.ClassFile.Consumption
import JvmAudit.Proofs.ClassFile.Descriptors
import JvmAudit.Proofs.ClassFile.Grammar
import JvmAudit.Proofs.ClassFile.Instruction
import JvmAudit.Proofs.ClassFile.Lines
import JvmAudit.Proofs.ClassFile.ModifiedUtf8
import JvmAudit.Proofs.ClassFile.Outline
import JvmAudit.Proofs.ClassFile.Pool
import JvmAudit.Proofs.ClassFile.Reader
import JvmAudit.Proofs.ClassFile.ShortestForm
import JvmAudit.Proofs.ClassFile.Slots
import JvmAudit.Proofs.ClassFile.Walk
import JvmAudit.Proofs.Classpath.Cache
import JvmAudit.Proofs.Classpath.Declarer
import JvmAudit.Proofs.Classpath.Inquiry
import JvmAudit.Proofs.Classpath.Lineage
import JvmAudit.Proofs.Classpath.Outline
import JvmAudit.Proofs.Classpath.Sharing
import JvmAudit.Proofs.Classpath.Supply
import JvmAudit.Proofs.Classpath.Trace
import JvmAudit.Proofs.Classpath.Walk
import JvmAudit.Proofs.Descriptor.Grammar
import JvmAudit.Proofs.Descriptor.JavaType
import JvmAudit.Proofs.Descriptor.Reading
import JvmAudit.Proofs.Descriptor.Spelling
import JvmAudit.Proofs.Pattern
import JvmAudit.Proofs.Pointwise
import JvmAudit.Proofs.Report.Groups
import JvmAudit.Proofs.Report.Xml
import JvmAudit.Proofs.Result
import JvmAudit.Proofs.Rule.Book
import JvmAudit.Proofs.Rule.Freeze
import JvmAudit.Proofs.Rule.History
import JvmAudit.Proofs.Rule.Identity
import JvmAudit.Proofs.Rule.Lines
import JvmAudit.Proofs.Rule.Loading
import JvmAudit.Proofs.Rule.Lookup
import JvmAudit.Proofs.Rule.Overload
import JvmAudit.Proofs.Rule.Roundtrip
import JvmAudit.Proofs.Rule.RuleSet
import JvmAudit.Proofs.Rule.Source
import JvmAudit.Proofs.Rule.Target
import JvmAudit.Proofs.Scan.Basic
import JvmAudit.Proofs.Scan.Failure
import JvmAudit.Proofs.Scan.Hit
import JvmAudit.Proofs.Scan.Monotone
import JvmAudit.Proofs.Scan.Precedence
import JvmAudit.Proofs.Scan.Sharing
import JvmAudit.Proofs.Scan.Sites
import JvmAudit.Proofs.Scan.Suppression
import JvmAudit.Proofs.Search
import JvmAudit.Proofs.Storage.FileTree
import JvmAudit.Proofs.Text.Blank
import JvmAudit.Proofs.Text.Cut
import JvmAudit.Proofs.Text.Utf8
import JvmAudit.Report.Basic
import JvmAudit.Report.Console
import JvmAudit.Report.Json
import JvmAudit.Report.Xml
import JvmAudit.Rule.Basic
import JvmAudit.Rule.Book
import JvmAudit.Rule.RuleSet
import JvmAudit.Rule.Source
import JvmAudit.Scan.Basic
import JvmAudit.Scan.Hit
import JvmAudit.Scan.InternalPackages
import JvmAudit.Settings.Basic
import JvmAudit.Settings.Source
import JvmAudit.Storage.Archive.Basic
import JvmAudit.Storage.Archive.Content
import JvmAudit.Storage.Archive.Directory
import JvmAudit.Storage.Archive.Trailer
import JvmAudit.Storage.Archive.Writer
import JvmAudit.Storage.Crc32
import JvmAudit.Storage.FileTree
import JvmAudit.Storage.Inflate
import JvmAudit.Storage.Path
import JvmAudit.Storage.PathPattern
import JvmAudit.Suppression
import JvmAudit.Text.Blank
import JvmAudit.Text.Cut
import JvmAudit.Text.Letters
import JvmAudit.Text.Suffix
import JvmAudit.Text.Utf16
import JvmAudit.Text.Utf8
import JvmAudit.Toml.Basic
import JvmAudit.Toml.Document
import JvmAudit.Toml.Scalar
