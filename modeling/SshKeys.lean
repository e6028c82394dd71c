import SshKeys.Wire.Bytes
import SshKeys.Text.Ascii
import SshKeys.Text.Scan
import SshKeys.Text.Visible
import SshKeys.Text.Diagnostic
import SshKeys.Key.Algorithm
import SshKeys.Error
import SshKeys.Wire.Decoder
import SshKeys.Wire.Encoding
import SshKeys.Wire.Mpint
import SshKeys.Text.Base64
import SshKeys.Arithmetic.Modular
import SshKeys.Arithmetic.LimbResidue
import SshKeys.Arithmetic.Sha2
import SshKeys.Arithmetic.CurveGroup
import SshKeys.Key.Point
import SshKeys.Key.PublicKey
import SshKeys.Key.Keypair
import SshKeys.Key.Verifying
import SshKeys.Key.Signing
import SshKeys.Key.Fingerprint
import SshKeys.Key.Registry
import SshKeys.Login.KeyEntry
import SshKeys.Login.Options
import SshKeys.Login.AuthorizedKeys
import SshKeys.Wire.Field
import SshKeys.Wire.Buffer
import SshKeys.Key.Generation
import SshKeys.Key.Exchange
import SshKeys.Script.Reading
import SshKeys.Script.Editing
import SshKeys.Proofs.Reads
import SshKeys.Proofs.BufferReads
import SshKeys.Proofs.Writes
import SshKeys.Proofs.MpintForms
import SshKeys.Proofs.PointForms
import SshKeys.Proofs.PublicKeyWire
import SshKeys.Proofs.NormalForm
import SshKeys.Proofs.KeypairWire
import SshKeys.Proofs.KeyPaths
import SshKeys.Proofs.SettledReads
import SshKeys.Proofs.ReadPrograms
import SshKeys.Proofs.FramedReads
import SshKeys.Proofs.BufferWrites
import SshKeys.Proofs.FieldWire
import SshKeys.Proofs.BufferQueue
import SshKeys.Proofs.AnnouncedLengths
import SshKeys.Proofs.FramedWrites
import SshKeys.Proofs.Compaction
import SshKeys.Proofs.Acceptance
import SshKeys.Proofs.AcceptedNumbers
import SshKeys.Proofs.PublicHalves
import SshKeys.Proofs.Base64Text
import SshKeys.Proofs.TextScans
import SshKeys.Proofs.CharacterBounds
import SshKeys.Proofs.UnquotedItems
import SshKeys.Proofs.KeyLines
import SshKeys.Proofs.OptionText
import SshKeys.Proofs.OptionLists
import SshKeys.Proofs.AuthorizedKeyText
import SshKeys.Proofs.Refusals
import SshKeys.Proofs.RegistryRuns
import SshKeys.Proofs.NameTables
import SshKeys.Proofs.ModularArithmetic
import SshKeys.Proofs.FieldPrimes
import SshKeys.Proofs.CurveLaw
import SshKeys.Proofs.KeypairHalves
import SshKeys.Proofs.NamesOnWire
import SshKeys.Proofs.FieldStreams
import SshKeys.Proofs.KeyBlobs
import SshKeys.Proofs.AssembledKeys
import SshKeys.Proofs.CubicRoots
import SshKeys.Proofs.LimbBounds
import SshKeys.Proofs.PointRecovery
import SshKeys.Proofs.UncompressedPoints
import SshKeys.Proofs.DecoratedLines
import SshKeys.Proofs.Magnitudes
import SshKeys.Proofs.EntryLines
import SshKeys.Proofs.FingerprintText
import SshKeys.Proofs.StreamedDigests
import SshKeys.Proofs.WritersAlike
import SshKeys.Proofs.OptionItems
import SshKeys.Proofs.OptionTables
import SshKeys.Proofs.KeyFiles
import SshKeys.Proofs.DerivedExponents
import SshKeys.Proofs.AlgorithmLabels
import SshKeys.Proofs.NameLists
import SshKeys.Proofs.LengthSums
