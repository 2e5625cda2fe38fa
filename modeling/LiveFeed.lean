import LiveFeed.Topic
import LiveFeed.Text.Blank
import LiveFeed.Text.Utf8
import LiveFeed.Text.Whole
import LiveFeed.Decimal.Shortest
import LiveFeed.Json.Basic
import LiveFeed.Json.Fault
import LiveFeed.Json.Scan
import LiveFeed.Json.Reader
import LiveFeed.Json.Printer
import LiveFeed.Json.Double
import LiveFeed.Json.Plain
import LiveFeed.Frame
import LiveFeed.Wire.Codec
import LiveFeed.Wire.Records
import LiveFeed.Wire.Kind
import LiveFeed.Credential
import LiveFeed.Url.Error
import LiveFeed.Url.Percent
import LiveFeed.Url.Punycode
import LiveFeed.Url.Domain
import LiveFeed.Url.Host
import LiveFeed.Url.Path
import LiveFeed.Url.Basic
import LiveFeed.Url.Reader
import LiveFeed.Url.Origin
import LiveFeed.SocketError
import LiveFeed.RequestError
import LiveFeed.Address
import LiveFeed.Banner
import LiveFeed.Failure
import LiveFeed.Table
import LiveFeed.Config
import LiveFeed.Database
import LiveFeed.Vault
import LiveFeed.Storage
import LiveFeed.Network
import LiveFeed.Client
import LiveFeed.Socket
import LiveFeed.Resource
import LiveFeed.Registry
import LiveFeed.Hub.Cell
import LiveFeed.Hub.Basic
import LiveFeed.Link
import LiveFeed.System
import LiveFeed.Stores
import LiveFeed.Watch
import LiveFeed.Rehearsal.Script
import LiveFeed.Rehearsal.Basic
import LiveFeed.Rehearsal.Run
import LiveFeed.CommandLine.Arguments
import LiveFeed.CommandLine.Command
import LiveFeed.CommandLine.Run
import LiveFeed.Main
import LiveFeed.Proofs.Points
import LiveFeed.Proofs.CellSteps
import LiveFeed.Proofs.NewestValue
import LiveFeed.Proofs.Registrations
import LiveFeed.Proofs.Subscriptions
import LiveFeed.Proofs.LinkMoves
import LiveFeed.Proofs.SystemSteps
import LiveFeed.Proofs.FanOuts
import LiveFeed.Proofs.Freshness
import LiveFeed.Proofs.OrderlyLink
import LiveFeed.Proofs.Lifecycle
import LiveFeed.Proofs.Reentrancy
import LiveFeed.Proofs.Turns
import LiveFeed.Proofs.SessionStream
import LiveFeed.Proofs.Dispatch
import LiveFeed.Proofs.LinkTrials
import LiveFeed.Proofs.RetryPolicy
import LiveFeed.Proofs.Disposal
import LiveFeed.Proofs.FlatRegistry
import LiveFeed.Proofs.GivenUpFetches
import LiveFeed.Proofs.ObserverNews
import LiveFeed.Proofs.Heartbeats
import LiveFeed.Proofs.JsonText
import LiveFeed.Proofs.StoredData
import LiveFeed.Proofs.TokenMap
import LiveFeed.Proofs.StoredSettings
import LiveFeed.Proofs.StoreSteps
import LiveFeed.Proofs.PictureDate
import LiveFeed.Proofs.Endpoints
import LiveFeed.Proofs.ScriptedReplies
import LiveFeed.Proofs.Announcements
import LiveFeed.Proofs.StoreRounds
import LiveFeed.Proofs.WireRecords
import LiveFeed.Proofs.StringLiterals
import LiveFeed.Proofs.FrameGrammar
import LiveFeed.Proofs.EncodedText
import LiveFeed.Proofs.PlainPaths
import LiveFeed.Proofs.NetworkAddresses
import LiveFeed.Proofs.WatchSetUp
import LiveFeed.Proofs.CredentialIsolation
import LiveFeed.Proofs.NestedRecords
import LiveFeed.Proofs.ReturnedUpdates
import LiveFeed.Proofs.FanOutCalls
import LiveFeed.Proofs.FetchAccounting
import LiveFeed.Proofs.Crashes
import LiveFeed.Proofs.CellHistories
import LiveFeed.Proofs.ReplayOrder
import LiveFeed.Proofs.SocketAddresses
import LiveFeed.Proofs.FormText
import LiveFeed.Proofs.SocketTokens
import LiveFeed.Proofs.RequestAddresses
import LiveFeed.Proofs.RequestOutcomes
import LiveFeed.Proofs.PercentCodes
import LiveFeed.Proofs.AccountRequests
import LiveFeed.Proofs.EndlessRetries
import LiveFeed.Proofs.FirstHeartbeat
import LiveFeed.Proofs.SettingsRepair
import LiveFeed.Proofs.WatchedResources
