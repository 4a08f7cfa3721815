import SchemaTypes.Main
import SchemaTypes.Proofs.Mapper.Termination
import SchemaTypes.Proofs.Typing.Cycle
import SchemaTypes.Proofs.Typing.Meaning
import SchemaTypes.Proofs.Reader.Atom
import SchemaTypes.Proofs.TypeTerm.Merge
import SchemaTypes.Proofs.Reader.Parser
import SchemaTypes.Proofs.Reader.Grouping
import SchemaTypes.Proofs.Reader.Weight
import SchemaTypes.Proofs.Reader.Text
import SchemaTypes.Proofs.Typing.Reading
import SchemaTypes.Proofs.Schema.Nesting
import SchemaTypes.Proofs.Typing.Congruence
import SchemaTypes.Proofs.Declaration.Closed
import SchemaTypes.Proofs.Declaration.Locality
import SchemaTypes.Proofs.Declaration.Precedence
import SchemaTypes.Proofs.Document.Definitions
import SchemaTypes.Proofs.Document.RoundTrip
import SchemaTypes.Proofs.Schema.Edit
import SchemaTypes.Proofs.Document.Edit
import SchemaTypes.Proofs.Declaration.Dangling
import SchemaTypes.Proofs.Declaration.Blocks
import SchemaTypes.Proofs.Declaration.Required
import SchemaTypes.Proofs.Reader.RoundTrip
import SchemaTypes.Proofs.Declaration.EnumNames
import SchemaTypes.Proofs.Declaration.EmptyLists
import SchemaTypes.Proofs.Typing.Visits
import SchemaTypes.Proofs.Mapper.History
import SchemaTypes.Proofs.Json.RoundTrip
import SchemaTypes.Proofs.TypeTerm.Depth
import SchemaTypes.Proofs.Declaration.EnumValues
import SchemaTypes.Proofs.Declaration.Keys
import SchemaTypes.Proofs.Document.DistinctNames
import SchemaTypes.Proofs.Document.Detection
import SchemaTypes.Proofs.Identifier.Scan
import SchemaTypes.Proofs.Identifier.Conventions
import SchemaTypes.Proofs.CommandLine.Assignment
import SchemaTypes.Proofs.CommandLine.Group
import SchemaTypes.Proofs.CommandLine.Grouping
import SchemaTypes.Proofs.CommandLine.Order
import SchemaTypes.Proofs.Command.Delivery
