import AccessControl.Cache.Bounds
import AccessControl.Cache.Run
import AccessControl.Cache.Store
import AccessControl.Cache.Sweeper
import AccessControl.Credential.CacheKey
import AccessControl.Credential.HashError
import AccessControl.Credential.Hasher
import AccessControl.Credential.Header
import AccessControl.Credential.Token
import AccessControl.Data.SortedSet
import AccessControl.Decimal.Shortest
import AccessControl.Digest.Blake3
import AccessControl.Digest.Sha2
import AccessControl.Digest.ShaCrypt
import AccessControl.Digest.Words
import AccessControl.Enrollment
import AccessControl.Grant.Authorizations
import AccessControl.Grant.Document
import AccessControl.Grant.Error
import AccessControl.Grant.Permission
import AccessControl.Grant.Record
import AccessControl.Grant.Scope
import AccessControl.Json.Error
import AccessControl.Json.Number
import AccessControl.Json.Sequence
import AccessControl.Json.Skip
import AccessControl.Json.Token
import AccessControl.Json.Typed
import AccessControl.Json.Variant
import AccessControl.KnownAnswers
import AccessControl.Proofs.Cache.Agreement
import AccessControl.Proofs.Cache.Attendance
import AccessControl.Proofs.Cache.Chronicle
import AccessControl.Proofs.Cache.ClockWords
import AccessControl.Proofs.Cache.Entries
import AccessControl.Proofs.Cache.Eviction
import AccessControl.Proofs.Cache.Expiry
import AccessControl.Proofs.Cache.Isolation
import AccessControl.Proofs.Cache.Lookups
import AccessControl.Proofs.Cache.Recency
import AccessControl.Proofs.Cache.Refinement
import AccessControl.Proofs.Cache.Retention
import AccessControl.Proofs.Cache.Sweeps
import AccessControl.Proofs.Credential.Bytewise
import AccessControl.Proofs.Credential.Canonical
import AccessControl.Proofs.Credential.Grammar
import AccessControl.Proofs.Credential.Header
import AccessControl.Proofs.Credential.Normalization
import AccessControl.Proofs.Credential.PairEncoding
import AccessControl.Proofs.Credential.Pieces
import AccessControl.Proofs.Credential.Policy
import AccessControl.Proofs.Credential.Redaction
import AccessControl.Proofs.Credential.StoredDigest
import AccessControl.Proofs.Data.Except
import AccessControl.Proofs.Grant.CorruptRecord
import AccessControl.Proofs.Grant.EncodedForm
import AccessControl.Proofs.Grant.PermissionRecord
import AccessControl.Proofs.Grant.PlainForm
import AccessControl.Proofs.Grant.StoredForm
import AccessControl.Proofs.Grant.Upgrade
import AccessControl.Proofs.Json.Grammar
import AccessControl.Proofs.Json.Numbers
import AccessControl.Proofs.Json.Skipping
import AccessControl.Proofs.Json.Strings
import AccessControl.Proofs.Text.Base64
import AccessControl.Proofs.Text.Base64Grammar
import AccessControl.Proofs.Text.Cuts
import AccessControl.Proofs.Text.Fields
import AccessControl.Proofs.Text.Slices
import AccessControl.Proofs.Verifier.Check
import AccessControl.Proofs.Verifier.CheckEffect
import AccessControl.Proofs.Verifier.Chronicle
import AccessControl.Proofs.Verifier.ConfigChanges
import AccessControl.Proofs.Verifier.ConfigOverlay
import AccessControl.Proofs.Verifier.DigestFailure
import AccessControl.Proofs.Verifier.FailedAttempts
import AccessControl.Proofs.Verifier.FreshTokens
import AccessControl.Proofs.Verifier.Freshness
import AccessControl.Proofs.Verifier.HitLaw
import AccessControl.Proofs.Verifier.Memory
import AccessControl.Proofs.Verifier.Occupancy
import AccessControl.Proofs.Verifier.Provenance
import AccessControl.Proofs.Verifier.Record
import AccessControl.Proofs.Verifier.Run
import AccessControl.Proofs.Verifier.Sweeps
import AccessControl.Proofs.Verifier.Transparency
import AccessControl.Text.Ascii
import AccessControl.Text.Base64
import AccessControl.Text.Fields
import AccessControl.Text.Hex
import AccessControl.Text.Quoted
import AccessControl.Text.Unprinted
import AccessControl.Text.Utf8
import AccessControl.Time
import AccessControl.Verifier.Basic
import AccessControl.Verifier.Config
import AccessControl.Verifier.ConfigDocument
import AccessControl.Verifier.Error
import AccessControl.Verifier.Run
