import Signet.Base64
import Signet.ByteStream.Fault
import Signet.ByteStream.TailBuffer
import Signet.ByteStream.Writer
import Signet.Bytes
import Signet.Canonical.Form
import Signet.Canonical.Number
import Signet.Cipher.Aes
import Signet.Cipher.Block
import Signet.Cipher.CounterStream
import Signet.Cipher.Gcm
import Signet.Cipher.GcmStream
import Signet.Cipher.Gf128
import Signet.Curve.Ed25519
import Signet.Curve.Field
import Signet.Curve.X25519
import Signet.Decimal.Binary
import Signet.Decimal.Layout
import Signet.Decimal.Shortest
import Signet.Decimal.Text
import Signet.Envelope.Aad
import Signet.Envelope.Agreed
import Signet.Envelope.Compact
import Signet.Envelope.Message
import Signet.Envelope.Wrapped
import Signet.Error
import Signet.Except
import Signet.Hash.Sha2
import Signet.Json.Access
import Signet.Json.Basic
import Signet.Json.Datum
import Signet.Json.Fault
import Signet.Json.FixedBytes
import Signet.Json.Number
import Signet.Json.Parser
import Signet.Json.Printer
import Signet.Key.Derivation
import Signet.Key.Id
import Signet.Key.Jwk
import Signet.Key.Pair
import Signet.Key.Provider
import Signet.Key.Symmetric
import Signet.Proofs.Text.Base64
import Signet.Proofs.Signature.Path
import Signet.Random
import Signet.Resource.Descriptor
import Signet.Resource.Transfer
import Signet.Signature.Chain
import Signet.Signature.Permission
import Signet.Signature.Signing
import Signet.Text.Utf8
import Signet.Proofs.Signature.Acceptance
import Signet.Proofs.Json.Members
import Signet.Proofs.Key.Jwk
import Signet.Proofs.Signature.Signed
import Signet.Proofs.Signature.Delegation
import Signet.Proofs.Decimal.Shortest
import Signet.Proofs.Json.Number
import Signet.Proofs.Json.Quote
import Signet.Proofs.Canonical.Number
import Signet.Proofs.Canonical.Tree
import Signet.Proofs.Json.Separated
import Signet.Proofs.Canonical.Identity
import Signet.Proofs.Cipher.GcmStream
import Signet.Proofs.ByteStream.Writer
import Signet.Proofs.Cipher.StreamWriter
import Signet.Proofs.Json.Written
import Signet.Proofs.Resource.Descriptor
import Signet.Proofs.Resource.Transfer
import Signet.Proofs.Text.Utf8
import Signet.Proofs.Text.Padding
import Signet.Proofs.Random
import Signet.Proofs.Cipher.Sealing
import Signet.Proofs.Envelope.Compact
import Signet.Proofs.Envelope.Message
import Signet.Proofs.Envelope.Wrapped
import Signet.Proofs.Envelope.Agreed
import Signet.Proofs.Envelope.Authentic
import Signet.Proofs.ByteStream.Failing
import Signet.Proofs.Resource.Failing
import Signet.Proofs.Decimal.Rounding
import Signet.Proofs.Decimal.Text
import Signet.Proofs.Canonical.Stable
import Signet.Proofs.Json.Parsed
import Signet.Proofs.Json.Reread
import Signet.Proofs.Canonical.Reparsed
import Signet.Proofs.Cipher.Aes
import Signet.Proofs.Cipher.Gf128
import Signet.Proofs.Cipher.Tampered
import Signet.Proofs.Envelope.Tampered
import Signet.Proofs.Resource.Tampered
import Signet.Proofs.Tampering
import Signet.Proofs.Signature.Escalation
import Signet.Proofs.Signature.Uncovered
import Signet.Proofs.Key.Export
import Signet.Proofs.Resource.Opened
import Signet.Proofs.Envelope.Deciding
import Signet.Proofs.Json.Lookup
import Signet.Proofs.Key.Refusal
import Signet.Proofs.Signature.Refusal
import Signet.Proofs.Signature.Rejection
import Signet.Proofs.Decimal.Neighbours
import Signet.Proofs.Decimal.Nearest
import Signet.Proofs.Decimal.Places
import Signet.Proofs.Canonical.Layout
import Signet.Proofs.ByteStream.TailBuffer
import Signet.Proofs.Envelope.Flawed
import Signet.Proofs.Bytes
import Signet.Proofs.Envelope.Aad
import Signet.Proofs.Key.Derivation
import Signet.Proofs.Json.FixedBytes
import Signet.Proofs.Drawing
import Signet.Proofs.Json.Expression
import Signet.Proofs.Json.Grammar
import Signet.Proofs.Canonical.WellFormed
import Signet.Proofs.Cipher.Counter
