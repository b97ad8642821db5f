import PlatformCatalog.Command.Invocation
import PlatformCatalog.Command.Run
import PlatformCatalog.Fetch.Annotation
import PlatformCatalog.Fetch.Archive
import PlatformCatalog.Fetch.Dictionary
import PlatformCatalog.Fetch.Error
import PlatformCatalog.Fetch.Feed
import PlatformCatalog.Fetch.Fetcher
import PlatformCatalog.Fetch.Network
import PlatformCatalog.Fetch.Retry
import PlatformCatalog.Fetch.Schedule
import PlatformCatalog.Json.Fields
import PlatformCatalog.Json.Printer
import PlatformCatalog.Json.Reader
import PlatformCatalog.Json.Value
import PlatformCatalog.Main
import PlatformCatalog.Markup.Event
import PlatformCatalog.Markup.Reader
import PlatformCatalog.Markup.Reference
import PlatformCatalog.Name.Attribute
import PlatformCatalog.Name.Basic
import PlatformCatalog.Name.Error
import PlatformCatalog.Name.Formatted
import PlatformCatalog.Name.Symbol
import PlatformCatalog.Name.Uri
import PlatformCatalog.Proofs.Agreement
import PlatformCatalog.Proofs.Answers
import PlatformCatalog.Proofs.AttributeChecks
import PlatformCatalog.Proofs.BatchOutcome
import PlatformCatalog.Proofs.BatchStarts
import PlatformCatalog.Proofs.BatchSteps
import PlatformCatalog.Proofs.CalendarDays
import PlatformCatalog.Proofs.Commits
import PlatformCatalog.Proofs.CommonSubsequences
import PlatformCatalog.Proofs.ComponentGrammar
import PlatformCatalog.Proofs.Convergence
import PlatformCatalog.Proofs.CostTables
import PlatformCatalog.Proofs.CutFeeds
import PlatformCatalog.Proofs.DoubleOrder
import PlatformCatalog.Proofs.EditDistances
import PlatformCatalog.Proofs.EditScripts
import PlatformCatalog.Proofs.EqualRecords
import PlatformCatalog.Proofs.EqualUris
import PlatformCatalog.Proofs.ExactScores
import PlatformCatalog.Proofs.ExactSearch
import PlatformCatalog.Proofs.FailedInsertions
import PlatformCatalog.Proofs.FeedElements
import PlatformCatalog.Proofs.FetchedBatches
import PlatformCatalog.Proofs.FormattedGrammar
import PlatformCatalog.Proofs.FormattedRoundTrip
import PlatformCatalog.Proofs.GreedyMatching
import PlatformCatalog.Proofs.HeldTitles
import PlatformCatalog.Proofs.History
import PlatformCatalog.Proofs.Ingestion
import PlatformCatalog.Proofs.Interleaving
import PlatformCatalog.Proofs.Interruption
import PlatformCatalog.Proofs.JsonRoundTrip
import PlatformCatalog.Proofs.LeastCosts
import PlatformCatalog.Proofs.ListedRecords
import PlatformCatalog.Proofs.Lookups
import PlatformCatalog.Proofs.LostItems
import PlatformCatalog.Proofs.LowerCase
import PlatformCatalog.Proofs.Manifest
import PlatformCatalog.Proofs.ManifestDocument
import PlatformCatalog.Proofs.ManifestSets
import PlatformCatalog.Proofs.MatchedCharacters
import PlatformCatalog.Proofs.MemberScan
import PlatformCatalog.Proofs.MorePermits
import PlatformCatalog.Proofs.NonnegativeDoubles
import PlatformCatalog.Proofs.Normalization
import PlatformCatalog.Proofs.PatternLookups
import PlatformCatalog.Proofs.PercentCodes
import PlatformCatalog.Proofs.QuotedValues
import PlatformCatalog.Proofs.RankedSearch
import PlatformCatalog.Proofs.ReadingOrder
import PlatformCatalog.Proofs.RefreshEffects
import PlatformCatalog.Proofs.RelationalIngestion
import PlatformCatalog.Proofs.RetiredNames
import PlatformCatalog.Proofs.Retries
import PlatformCatalog.Proofs.Rows
import PlatformCatalog.Proofs.Scans
import PlatformCatalog.Proofs.SetKeys
import PlatformCatalog.Proofs.SetTables
import PlatformCatalog.Proofs.ShingleProfiles
import PlatformCatalog.Proofs.Stamps
import PlatformCatalog.Proofs.StoredProducts
import PlatformCatalog.Proofs.StoredTimes
import PlatformCatalog.Proofs.SwapTable
import PlatformCatalog.Proofs.TextBytes
import PlatformCatalog.Proofs.TextOrder
import PlatformCatalog.Proofs.TitleGroups
import PlatformCatalog.Proofs.TopScores
import PlatformCatalog.Proofs.UnitedDictionary
import PlatformCatalog.Proofs.UriComponents
import PlatformCatalog.Proofs.UriGrammar
import PlatformCatalog.Proofs.UriRoundTrip
import PlatformCatalog.Proofs.WildcardFrames
import PlatformCatalog.Query
import PlatformCatalog.Record.Basic
import PlatformCatalog.Record.Document
import PlatformCatalog.Record.Listing
import PlatformCatalog.Record.Source
import PlatformCatalog.Refresh
import PlatformCatalog.Settings
import PlatformCatalog.Similarity.Algorithm
import PlatformCatalog.Similarity.EditDistance
import PlatformCatalog.Similarity.Matching
import PlatformCatalog.Similarity.Ranking
import PlatformCatalog.Similarity.Shingle
import PlatformCatalog.Store.Backend
import PlatformCatalog.Store.Cell
import PlatformCatalog.Store.Document
import PlatformCatalog.Store.Error
import PlatformCatalog.Store.Index
import PlatformCatalog.Store.KeyValue
import PlatformCatalog.Store.Manifest
import PlatformCatalog.Store.Ordered
import PlatformCatalog.Store.Relational
import PlatformCatalog.Store.Stamp
import PlatformCatalog.Text.CharacterData
import PlatformCatalog.Text.Form
import PlatformCatalog.Text.Glyph
import PlatformCatalog.Text.Numeral
import PlatformCatalog.Text.Url
import PlatformCatalog.Time.Calendar
import PlatformCatalog.Time.Duration
import PlatformCatalog.Time.Timestamp
