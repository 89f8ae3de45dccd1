import TokenMetadata.Bytes
import TokenMetadata.Text.Base64
import TokenMetadata.Text.Hex
import TokenMetadata.Hash.Sha256
import TokenMetadata.Text.Base58
import TokenMetadata.Text.Character
import TokenMetadata.Text.Bech32
import TokenMetadata.Text.Numeral
import TokenMetadata.Curve.Point
import TokenMetadata.Datum.Basic
import TokenMetadata.Datum.Quoted
import TokenMetadata.Fault
import TokenMetadata.Bytes.Size
import TokenMetadata.Limits
import TokenMetadata.Borsh
import TokenMetadata.Payload
import TokenMetadata.Payload.Draft
import TokenMetadata.Program
import TokenMetadata.Address
import TokenMetadata.Budget
import TokenMetadata.Flow
import TokenMetadata.Record
import TokenMetadata.Token
import TokenMetadata.Account.Node
import TokenMetadata.Account.Reader
import TokenMetadata.Signing.Message
import TokenMetadata.Signing.PrivateKey
import TokenMetadata.Datum.Json
import TokenMetadata.Fixtures
import TokenMetadata.Main
import TokenMetadata.Proofs.Success
import TokenMetadata.Proofs.Bytes
import TokenMetadata.Proofs.Wire.Marks
import TokenMetadata.Proofs.Wire.Reading
import TokenMetadata.Proofs.Wire.Law
import TokenMetadata.Proofs.Wire.Steady
import TokenMetadata.Proofs.Limits
import TokenMetadata.Proofs.Payload
import TokenMetadata.Proofs.Record
import TokenMetadata.Proofs.Canonical
import TokenMetadata.Proofs.Padding
import TokenMetadata.Proofs.Truncation
import TokenMetadata.Proofs.Violations
import TokenMetadata.Proofs.Gate
import TokenMetadata.Proofs.Address
import TokenMetadata.Proofs.Address.Separation
import TokenMetadata.Proofs.Address.OffCurve
import TokenMetadata.Proofs.Address.Search
import TokenMetadata.Proofs.Address.FirstBump
import TokenMetadata.Proofs.Operation
import TokenMetadata.Proofs.Flow
import TokenMetadata.Proofs.Flow.Composition
import TokenMetadata.Proofs.Privilege
import TokenMetadata.Proofs.Account.Serving
import TokenMetadata.Proofs.Account.Reading
import TokenMetadata.Proofs.Account.Place
import TokenMetadata.Proofs.Account.Foreign
import TokenMetadata.Proofs.Account.Batches
import TokenMetadata.Proofs.Account.Failures
import TokenMetadata.Proofs.Account.Shapes
import TokenMetadata.Proofs.Curve.Prime
import TokenMetadata.Proofs.Curve.Group
import TokenMetadata.Proofs.Curve.Ladder
import TokenMetadata.Proofs.Curve.Order
import TokenMetadata.Proofs.Curve.Lift
import TokenMetadata.Proofs.Curve.Encoding
import TokenMetadata.Proofs.Curve.Count
import TokenMetadata.Proofs.Signing.Taproot
import TokenMetadata.Proofs.Signing.Schnorr
import TokenMetadata.Proofs.Signing.Completeness
import TokenMetadata.Proofs.Signing.Equation
import TokenMetadata.Proofs.Text.Base64
import TokenMetadata.Proofs.Text.Numeral
import TokenMetadata.Proofs.Text.Alphabet
import TokenMetadata.Proofs.Text.Base58
import TokenMetadata.Proofs.Text.Hex
import TokenMetadata.Proofs.Text.Checksum
import TokenMetadata.Proofs.Text.Fives
import TokenMetadata.Proofs.Key
import TokenMetadata.Proofs.Signing.Wif
import TokenMetadata.Proofs.Signing.CompactSize
import TokenMetadata.Proofs.Signing.WitnessGrammar
import TokenMetadata.Proofs.Signing.Extraction
import TokenMetadata.Proofs.Signing.Binding
import TokenMetadata.Proofs.Signing.Verification
import TokenMetadata.Proofs.Signing.Agreement
import TokenMetadata.Proofs.Text.Bech32
import TokenMetadata.Proofs.Signing.TaprootAddress
import TokenMetadata.Proofs.Signing.Tweak
import TokenMetadata.Proofs.Signing.AddressGrammar
import TokenMetadata.Proofs.Signing.Control
import TokenMetadata.Proofs.Signing.Acceptance
import TokenMetadata.Proofs.Signing.Networks
import TokenMetadata.Proofs.Signing.Refusal
import TokenMetadata.Proofs.Budget
import TokenMetadata.Proofs.Settings
import TokenMetadata.Proofs.Datum
import TokenMetadata.Proofs.Datum.Tokens
import TokenMetadata.Proofs.Datum.Json
import TokenMetadata.Proofs.Datum.RoundTrip
import TokenMetadata.Proofs.Fixtures
