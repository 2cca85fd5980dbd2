import SchemaDrift.Main
import SchemaDrift.Token.Feed
import SchemaDrift.Workspace
import SchemaDrift.Proofs.Pairing
import SchemaDrift.Proofs.Comparison
import SchemaDrift.Proofs.Matching
import SchemaDrift.Proofs.Account
import SchemaDrift.Proofs.Gate
import SchemaDrift.Proofs.Scan
import SchemaDrift.Proofs.Place
import SchemaDrift.Proofs.Statements
import SchemaDrift.Proofs.Calls
import SchemaDrift.Proofs.Splitting
import SchemaDrift.Proofs.Twins
import SchemaDrift.Proofs.Captured
import SchemaDrift.Proofs.Uniform
import SchemaDrift.Proofs.Excerpt
import SchemaDrift.Proofs.Independence
import SchemaDrift.Proofs.Concatenation
import SchemaDrift.Proofs.Tiling
import SchemaDrift.Proofs.Reversal
import SchemaDrift.Proofs.Renames
import SchemaDrift.Proofs.Confined
import SchemaDrift.Proofs.Inside
import SchemaDrift.Proofs.Capture
import SchemaDrift.Proofs.ElementList
import SchemaDrift.Proofs.Entries
import SchemaDrift.Proofs.Expressions
import SchemaDrift.Proofs.Reformatting
import SchemaDrift.Proofs.Reordering
import SchemaDrift.Proofs.ByName
import SchemaDrift.Proofs.Presence
import SchemaDrift.Proofs.Blame
import SchemaDrift.Proofs.JsonValue
import SchemaDrift.Proofs.JsonTable
import SchemaDrift.Proofs.JsonChange
import SchemaDrift.Proofs.Printed
import SchemaDrift.Proofs.Forward
import SchemaDrift.Proofs.OptionClauses
import SchemaDrift.Proofs.TypeForms
import SchemaDrift.Proofs.TypeText
import SchemaDrift.Proofs.ClauseForms
import SchemaDrift.Proofs.ColumnClauses
import SchemaDrift.Proofs.ReferenceTail
import SchemaDrift.Proofs.InPlace
import SchemaDrift.Proofs.Aligned
import SchemaDrift.Proofs.NumericDefault
import SchemaDrift.Proofs.ValueList
import SchemaDrift.Proofs.PartitionForms
import SchemaDrift.Proofs.NormalText
import SchemaDrift.Proofs.KeyReadBack
import SchemaDrift.Proofs.Rearrangement
import SchemaDrift.Proofs.Replacement
import SchemaDrift.Proofs.Progress
import SchemaDrift.Proofs.Retargeting
import SchemaDrift.Proofs.OptionalEnd
import SchemaDrift.Proofs.SummaryText
import SchemaDrift.Proofs.Passes
import SchemaDrift.Proofs.CanonicalSpacing
