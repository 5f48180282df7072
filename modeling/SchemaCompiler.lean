import SchemaCompiler.Code.Event
import SchemaCompiler.Code.Layout
import SchemaCompiler.Json.Reader
import SchemaCompiler.Json.Text
import SchemaCompiler.Registry.Session
import SchemaCompiler.Run.Structured
import SchemaCompiler.Schema.Violations
import SchemaCompiler.Proofs.Code.Scope
import SchemaCompiler.Proofs.Compilation
import SchemaCompiler.Proofs.Emit.Scope
import SchemaCompiler.Proofs.Inheritance
import SchemaCompiler.Proofs.Layout
import SchemaCompiler.Proofs.NamesAsSchemas
import SchemaCompiler.Proofs.Run.Scope
import SchemaCompiler.Proofs.Run.Subschema
import SchemaCompiler.Proofs.Schema.FirstFault
import SchemaCompiler.Proofs.Schema.Grammar
import SchemaCompiler.Proofs.Schema.Justified
import SchemaCompiler.Proofs.Schema.Reading
import SchemaCompiler.Proofs.Schema.Alike
import SchemaCompiler.Proofs.Observation
import SchemaCompiler.Proofs.MemberOrder
import SchemaCompiler.Proofs.Registry.Entries
import SchemaCompiler.Proofs.Registry.History
import SchemaCompiler.Proofs.Registry.Export
import SchemaCompiler.Proofs.Run.MissingNames
import SchemaCompiler.Proofs.Run.Frames
import SchemaCompiler.Proofs.Code.Events
import SchemaCompiler.Proofs.Repair
import SchemaCompiler.Proofs.CodeShape
import SchemaCompiler.Proofs.Code.Reading
import SchemaCompiler.Proofs.Code.Negation
import SchemaCompiler.Proofs.Fragment
import SchemaCompiler.Proofs.Schema.Split
import SchemaCompiler.Proofs.Code.NormalForm
import SchemaCompiler.Proofs.Code.DistinctNames
import SchemaCompiler.Proofs.Run.ShownParams
import SchemaCompiler.Proofs.Gathering
