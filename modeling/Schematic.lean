import Schematic.Main
import Schematic.Session.Step
import Schematic.Proofs.Containment
import Schematic.Proofs.Termination
import Schematic.Proofs.Dot.Forest
import Schematic.Proofs.Generation.Agreement
import Schematic.Proofs.Checked.Session
import Schematic.Proofs.Document.Names
import Schematic.Proofs.Document.Noted
import Schematic.Proofs.Document.Selection
import Schematic.Proofs.Registration
import Schematic.Proofs.Session.Paths
import Schematic.Proofs.Document.Links
import Schematic.Proofs.Document.Forest
import Schematic.Proofs.Document.Layout
import Schematic.Proofs.Generation.Accounts
import Schematic.Proofs.Document.Copies
import Schematic.Proofs.Document.Faults
import Schematic.Proofs.Json.RoundTrip
import Schematic.Proofs.Codec.Agreement
import Schematic.Proofs.Codec.Lawful
import Schematic.Proofs.Document.Readers
import Schematic.Proofs.Session.Strung
import Schematic.Proofs.Session.Runs
import Schematic.Proofs.Partition
import Schematic.Proofs.Session.Edits
import Schematic.Proofs.Printed
import Schematic.Proofs.Identity
import Schematic.Proofs.Session.Frame
import Schematic.Proofs.Inert
import Schematic.Proofs.Files.Tree
import Schematic.Proofs.Generation.Stored
import Schematic.Proofs.Generation.Names
import Schematic.Proofs.Dot.Labels
import Schematic.Proofs.Dot.Edges
import Schematic.Proofs.Generation.Tabled
import Schematic.Proofs.Hosting
import Schematic.Proofs.Grouping
import Schematic.Proofs.Interchange
import Schematic.Proofs.Modifiers
import Schematic.Proofs.Diagnosis
import Schematic.Proofs.Numbering
import Schematic.Proofs.Labelling
import Schematic.Proofs.Arguments
import Schematic.Proofs.Document.Members
