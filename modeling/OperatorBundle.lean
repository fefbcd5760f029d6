import OperatorBundle.Build
import OperatorBundle.Calendar.Date
import OperatorBundle.Calendar.Instant
import OperatorBundle.CommandLine.Invocation
import OperatorBundle.CommandLine.Run
import OperatorBundle.Config
import OperatorBundle.Config.File
import OperatorBundle.Decimal.Binary64
import OperatorBundle.Decimal.Shortest
import OperatorBundle.Error
import OperatorBundle.Main
import OperatorBundle.Manifest.ClusterPermission
import OperatorBundle.Manifest.Deployment
import OperatorBundle.Manifest.Descriptor
import OperatorBundle.Manifest.Document
import OperatorBundle.Manifest.OwnedCrd
import OperatorBundle.Manifest.Sample
import OperatorBundle.Path
import OperatorBundle.Proofs.Build.Agreement
import OperatorBundle.Proofs.Build.Confinement
import OperatorBundle.Proofs.Build.Effect
import OperatorBundle.Proofs.Build.Failure
import OperatorBundle.Proofs.Build.Inputs
import OperatorBundle.Proofs.Build.Listing
import OperatorBundle.Proofs.Build.Repetition
import OperatorBundle.Proofs.Build.Selection
import OperatorBundle.Proofs.Build.Success
import OperatorBundle.Proofs.Build.UniqueKeys
import OperatorBundle.Proofs.Build.Upgrade
import OperatorBundle.Proofs.Calendar.Stamp
import OperatorBundle.Proofs.CommandLine.Run
import OperatorBundle.Proofs.Config
import OperatorBundle.Proofs.Config.Given
import OperatorBundle.Proofs.Config.Text
import OperatorBundle.Proofs.Config.Understood
import OperatorBundle.Proofs.Decimal.Rounding
import OperatorBundle.Proofs.Decimal.Shortest
import OperatorBundle.Proofs.Manifest.Condition
import OperatorBundle.Proofs.Manifest.Handle
import OperatorBundle.Proofs.Manifest.Image
import OperatorBundle.Proofs.Manifest.Proper
import OperatorBundle.Proofs.Manifest.Reassembly
import OperatorBundle.Proofs.Manifest.RoundTrip
import OperatorBundle.Proofs.Manifest.Slots
import OperatorBundle.Proofs.Manifest.Source
import OperatorBundle.Proofs.Manifest.Spelling
import OperatorBundle.Proofs.Manifest.Stamp
import OperatorBundle.Proofs.Manifest.Stream
import OperatorBundle.Proofs.Manifest.Summary
import OperatorBundle.Proofs.Outcome
import OperatorBundle.Proofs.Path.Components
import OperatorBundle.Proofs.Path.Plain
import OperatorBundle.Proofs.Store.Disk
import OperatorBundle.Proofs.Store.Memory
import OperatorBundle.Proofs.Store.Mirror
import OperatorBundle.Proofs.Store.Missing
import OperatorBundle.Proofs.Store.Simulation
import OperatorBundle.Proofs.Store.Tree
import OperatorBundle.Proofs.Text.Bytes
import OperatorBundle.Proofs.Text.Classes
import OperatorBundle.Proofs.Text.Split
import OperatorBundle.Proofs.Toml.Document
import OperatorBundle.Proofs.Toml.Grammar
import OperatorBundle.Proofs.Toml.Number
import OperatorBundle.Proofs.Toml.Sound
import OperatorBundle.Proofs.Toml.Statement
import OperatorBundle.Proofs.Toml.Text
import OperatorBundle.Proofs.Toml.Value
import OperatorBundle.Proofs.Toml.Word
import OperatorBundle.Proofs.Yaml.Access
import OperatorBundle.Proofs.Yaml.Alter
import OperatorBundle.Proofs.Yaml.Held
import OperatorBundle.Proofs.Yaml.Path
import OperatorBundle.Proofs.Yaml.Rebuilt
import OperatorBundle.Proofs.Yaml.Scalar.Canonical
import OperatorBundle.Store.Basic
import OperatorBundle.Store.Disk
import OperatorBundle.Store.Memory
import OperatorBundle.Text.Blank
import OperatorBundle.Text.LetterCase
import OperatorBundle.Text.Lowercase
import OperatorBundle.Text.Ranges
import OperatorBundle.Text.Split
import OperatorBundle.Toml.Document
import OperatorBundle.Toml.Number
import OperatorBundle.Toml.Statement
import OperatorBundle.Toml.Text
import OperatorBundle.Toml.Value
import OperatorBundle.Version
import OperatorBundle.Yaml.Character
import OperatorBundle.Yaml.Cursor
import OperatorBundle.Yaml.Defect
import OperatorBundle.Yaml.Document
import OperatorBundle.Yaml.Layout.Block
import OperatorBundle.Yaml.Layout.Scalar
import OperatorBundle.Yaml.Node.Basic
import OperatorBundle.Yaml.Node.Link
import OperatorBundle.Yaml.Node.OfTokens
import OperatorBundle.Yaml.Number
import OperatorBundle.Yaml.Path
import OperatorBundle.Yaml.Token.Basic
import OperatorBundle.Yaml.Token.Property
import OperatorBundle.Yaml.Token.Scalar
import OperatorBundle.Yaml.Token.Scan
import OperatorBundle.Yaml.Value.Access
import OperatorBundle.Yaml.Value.Basic
import OperatorBundle.Yaml.Value.OfDocument
import OperatorBundle.Yaml.Value.Rebuilt
import OperatorBundle.Yaml.Value.Scalar
