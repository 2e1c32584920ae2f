import Idl.Compile
import Idl.Fault
import Idl.FileTree
import Idl.Lookup
import Idl.Main
import Idl.Naming
import Idl.Proofs.Files.Generate
import Idl.Proofs.Layout
import Idl.Proofs.Outline.Bytes
import Idl.Proofs.Outline.Order
import Idl.Proofs.Outline.References
import Idl.Proofs.Reader.Places
import Idl.Proofs.Schema.Dump
import Idl.Proofs.Schema.Rules
import Idl.Proofs.Target.EnumValues
import Idl.Schema.Dump
import Idl.Schema.Reader
import Idl.Schema.Validity
import Idl.Target.CSharp
import Idl.Target.Go
import Idl.Target.Render
import Idl.Target.Rust
import Idl.Text.Escape
import Idl.Token.Scan
import Idl.Proofs.Token.Longest
import Idl.Proofs.Token.Lossless
import Idl.Proofs.Codec.Dart
import Idl.Proofs.Codec.TypeScript
import Idl.Proofs.Outline.Sections
import Idl.Proofs.Outline.Languages
import Idl.Proofs.Outline.Reading
import Idl.Proofs.Outline.Texts
import Idl.Proofs.Outline.Rust
import Idl.Proofs.Outline.Go
import Idl.Proofs.Outline.CSharp
import Idl.Proofs.Outline.Dart
import Idl.Proofs.Outline.TypeScript
import Idl.Proofs.Outline.Lookups
import Idl.Proofs.Outline.Fields
import Idl.Proofs.Target.Literals
import Idl.Proofs.Token.Classes
import Idl.Proofs.Token.Spaced
import Idl.Proofs.Schema.Integers
import Idl.Proofs.Outline.Package
import Idl.Proofs.Naming
import Idl.Proofs.Outline.Members
import Idl.Proofs.Outline.Parameters
import Idl.Proofs.Outline.Constructors
import Idl.Proofs.Outline.Modules
import Idl.Proofs.Outline.Reserved
import Idl.Proofs.Outline.Wrapping
import Idl.Proofs.Refusals
import Idl.Proofs.Reader.Endless
import Idl.Proofs.Reader.Plan
import Idl.Proofs.Schema.Spellings
import Idl.Proofs.Outline.Imports
