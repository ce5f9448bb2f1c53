import Trellis.Main
import Trellis.Spec.Writer
import Trellis.View.Edit
import Trellis.Proofs.Scopes
import Trellis.Proofs.Sources
import Trellis.Proofs.Clashes
import Trellis.Proofs.DatasetNames
import Trellis.Proofs.Stores
import Trellis.Proofs.Sessions
import Trellis.Proofs.Reread
import Trellis.Proofs.RootOnly
import Trellis.Proofs.ColumnClashes
import Trellis.Proofs.Sides
import Trellis.Proofs.Numbered
import Trellis.Proofs.Titles
import Trellis.Proofs.Bands
import Trellis.Proofs.Baselines
import Trellis.Proofs.InLayers
import Trellis.Proofs.Literals
import Trellis.Proofs.QuotedNames
import Trellis.Proofs.SignalIdentifiers
import Trellis.Proofs.Domains
import Trellis.Proofs.DateParts
