import RuleExchange.Cli.Invocation
import RuleExchange.Cli.Problem
import RuleExchange.Cli.Report
import RuleExchange.Cli.Run
import RuleExchange.CommandLine.Grammar
import RuleExchange.CommandLine.Reader
import RuleExchange.Comment
import RuleExchange.Decimal.Layout
import RuleExchange.Decimal.Read
import RuleExchange.Decimal.Shortest
import RuleExchange.Digest
import RuleExchange.Document.Profile
import RuleExchange.Document.Reader
import RuleExchange.Document.Writer
import RuleExchange.Engine.Basic
import RuleExchange.Engine.Cache
import RuleExchange.Engine.Call
import RuleExchange.Engine.Circuit
import RuleExchange.Engine.Flights
import RuleExchange.Engine.ItemName
import RuleExchange.Engine.Listing
import RuleExchange.Engine.Options
import RuleExchange.Engine.Pipeline
import RuleExchange.Engine.Remote
import RuleExchange.Engine.Request
import RuleExchange.Engine.Schedule
import RuleExchange.Engine.Service
import RuleExchange.Engine.Tally
import RuleExchange.Engine.Telemetry
import RuleExchange.Failure
import RuleExchange.Health
import RuleExchange.Instant
import RuleExchange.Instant.Text
import RuleExchange.Json.Decode
import RuleExchange.Json.Record
import RuleExchange.Json.Source
import RuleExchange.Json.Value
import RuleExchange.Json.Writer
import RuleExchange.Main
import RuleExchange.Platform.Basic
import RuleExchange.Platform.Conversion
import RuleExchange.Proofs.BatchIsolation
import RuleExchange.Proofs.BatchPlaces
import RuleExchange.Proofs.BodyText
import RuleExchange.Proofs.CacheEntries
import RuleExchange.Proofs.CallSteps
import RuleExchange.Proofs.CallTrail
import RuleExchange.Proofs.CircuitRecovery
import RuleExchange.Proofs.CircuitSession
import RuleExchange.Proofs.CommentScan
import RuleExchange.Proofs.CommentStripping
import RuleExchange.Proofs.ComputedOnce
import RuleExchange.Proofs.Consultation
import RuleExchange.Proofs.DocumentMembers
import RuleExchange.Proofs.DocumentRoundTrip
import RuleExchange.Proofs.FingerprintEncoding
import RuleExchange.Proofs.FlightTickets
import RuleExchange.Proofs.History
import RuleExchange.Proofs.JsonDecode
import RuleExchange.Proofs.JsonText
import RuleExchange.Proofs.Ledger
import RuleExchange.Proofs.LoneCall
import RuleExchange.Proofs.Members
import RuleExchange.Proofs.PatternSearch
import RuleExchange.Proofs.QueryMarks
import RuleExchange.Proofs.QueryRoundTrip
import RuleExchange.Proofs.QueryTokens
import RuleExchange.Proofs.QuoteScanners
import RuleExchange.Proofs.RenderedComments
import RuleExchange.Proofs.ScheduleEnds
import RuleExchange.Proofs.ScheduleHistory
import RuleExchange.Proofs.ScheduleOrder
import RuleExchange.Proofs.Sequencing
import RuleExchange.Proofs.SignatureBody
import RuleExchange.Proofs.SignatureConditions
import RuleExchange.Proofs.SignatureMarks
import RuleExchange.Proofs.SignatureOptions
import RuleExchange.Proofs.SignaturePatterns
import RuleExchange.Proofs.SignatureText
import RuleExchange.Proofs.SourceValidity
import RuleExchange.Proofs.StrictExchange
import RuleExchange.Proofs.TextOccurrence
import RuleExchange.Proofs.TextReading
import RuleExchange.Proofs.Transparency
import RuleExchange.Proofs.TrialEpisodes
import RuleExchange.Proofs.TripRule
import RuleExchange.Proofs.Watch
import RuleExchange.Proofs.WorldProgress
import RuleExchange.Proofs.WorldSound
import RuleExchange.Proofs.ZeekGuard
import RuleExchange.Proofs.ZeekMarks
import RuleExchange.Proofs.ZeekScript
import RuleExchange.Proofs.ZeekTerms
import RuleExchange.Quality.Analyzer
import RuleExchange.Quality.Metrics
import RuleExchange.Quality.Warning
import RuleExchange.Query.Dialect
import RuleExchange.Query.Reader
import RuleExchange.Query.Token
import RuleExchange.Query.Writer
import RuleExchange.Regex.CharSet
import RuleExchange.Regex.Pattern
import RuleExchange.Regex.Reader
import RuleExchange.Registry
import RuleExchange.Rule.Body
import RuleExchange.Rule.Condition
import RuleExchange.Rule.Field
import RuleExchange.SemVer
import RuleExchange.Service.Address
import RuleExchange.Service.Api
import RuleExchange.Service.Launch
import RuleExchange.Service.MediaType
import RuleExchange.Service.PidFile
import RuleExchange.Settings.Basic
import RuleExchange.Settings.Check
import RuleExchange.Settings.Environment
import RuleExchange.Settings.Source
import RuleExchange.Signature.Basic
import RuleExchange.Signature.Body
import RuleExchange.Signature.Reader
import RuleExchange.Storage
import RuleExchange.Text.Blank
import RuleExchange.Text.Fold
import RuleExchange.Text.Literal
import RuleExchange.Text.Part
import RuleExchange.Text.Quoted
import RuleExchange.Text.Word
import RuleExchange.Toml.Quoted
import RuleExchange.Toml.Reader
import RuleExchange.Toml.Scalar
import RuleExchange.Toml.Table
import RuleExchange.Toml.Writer
import RuleExchange.Universal
import RuleExchange.Zeek.Reader
import RuleExchange.Zeek.Writer
import RuleExchange.Proofs.QueryNegation
import RuleExchange.Proofs.QueryStages
import RuleExchange.Proofs.QueryPlaceholder
import RuleExchange.Proofs.QueryEquality
import RuleExchange.Proofs.SignatureModifiers
import RuleExchange.Proofs.SignatureReferences
import RuleExchange.Proofs.ZeekLiterals
import RuleExchange.Proofs.ValidatorAdvice
import RuleExchange.Proofs.PatternMeaning
import RuleExchange.Proofs.CacheOrder
import RuleExchange.Proofs.SignatureTuning
import RuleExchange.Proofs.FlightHistories
import RuleExchange.Proofs.PatternStability
import RuleExchange.Proofs.TextReplacement
import RuleExchange.Proofs.CommentAnnotation
import RuleExchange.Proofs.RequiredFields
import RuleExchange.Proofs.Complexity
import RuleExchange.Proofs.VersionWindow
import RuleExchange.Proofs.Backoff
import RuleExchange.Proofs.OverallHealth
import RuleExchange.Proofs.QuotedParts
import RuleExchange.Proofs.QuotedText
