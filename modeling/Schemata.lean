import Schemata.Main
import Schemata.Traversal.Trace
import Schemata.Proofs.Document.RoundTrip
import Schemata.Proofs.Normal.DistinctNames
import Schemata.Proofs.Normal.LiftReferences
import Schemata.Proofs.Normal.LiftValidity
import Schemata.Proofs.Normal.LeastOrder
import Schemata.Proofs.Writer.NothingDropped
import Schemata.Proofs.Writer.DefinitionOrder
import Schemata.Proofs.Lowering.NeverEmpty
import Schemata.Proofs.Lowering.History
import Schemata.Proofs.Catalog.Overrides
import Schemata.Proofs.Schema.Coverage
import Schemata.Proofs.Traversal.Forest
import Schemata.Proofs.Document.ItemKinds
import Schemata.Proofs.Command.Delivery
import Schemata.Proofs.Writer.FieldTypes
import Schemata.Proofs.Writer.ConstantNames
import Schemata.Proofs.GoSyntax.TagReading
import Schemata.Proofs.GoSyntax.ConstantArithmetic
import Schemata.Proofs.GoSyntax.Expansion
import Schemata.Proofs.Hcl.EnumNumbers
import Schemata.Proofs.Writer.EnumBlocks
import Schemata.Proofs.Writer.FieldDefaults
import Schemata.Proofs.Naming.EditDistance
import Schemata.Proofs.Naming.Suggestions
import Schemata.Proofs.Schema.DottedNames
import Schemata.Proofs.Normal.NameClaims
import Schemata.Proofs.Emission.Tidying
