import Uplink.Binary64
import Uplink.Binary64.Decimal
import Uplink.Binary64.Shortest
import Uplink.Call
import Uplink.Cli
import Uplink.Cli.EnvFile
import Uplink.Cli.Invocation
import Uplink.Cli.LogFilter
import Uplink.Cli.Options
import Uplink.Duration
import Uplink.Error
import Uplink.Header
import Uplink.Json
import Uplink.Json.Number
import Uplink.Json.Reader
import Uplink.Json.Writer
import Uplink.KeyMap
import Uplink.Limiter
import Uplink.Limiter.Overlap
import Uplink.Main
import Uplink.Manager
import Uplink.Offline
import Uplink.Outgoing
import Uplink.Proofs.Binary64.Accuracy
import Uplink.Proofs.Binary64.Digits
import Uplink.Proofs.Binary64.Finite
import Uplink.Proofs.Binary64.Rounding
import Uplink.Proofs.Binary64.Scaling
import Uplink.Proofs.Binary64.Shortest
import Uplink.Proofs.Call.Handover
import Uplink.Proofs.Call.Headers
import Uplink.Proofs.Call.Protocol
import Uplink.Proofs.Call.Unsendable
import Uplink.Proofs.Cli.Listening
import Uplink.Proofs.Cli.Loading
import Uplink.Proofs.Cli.Sending
import Uplink.Proofs.Duration.Seconds
import Uplink.Proofs.Json.Documents
import Uplink.Proofs.Json.Grammar
import Uplink.Proofs.Json.Meaning
import Uplink.Proofs.Json.NumberAccuracy
import Uplink.Proofs.Json.NumberText
import Uplink.Proofs.Json.NumberValue
import Uplink.Proofs.Json.ScaleAccuracy
import Uplink.Proofs.Json.ShortestText
import Uplink.Proofs.Json.Spelling
import Uplink.Proofs.Json.WholeNumbers
import Uplink.Proofs.Limiter.Log
import Uplink.Proofs.Limiter.Overlap
import Uplink.Proofs.Limiter.Standstill
import Uplink.Proofs.Limiter.Window
import Uplink.Proofs.Registry.Awaited
import Uplink.Proofs.Registry.Effect
import Uplink.Proofs.Registry.Failures
import Uplink.Proofs.Registry.Faults
import Uplink.Proofs.Registry.Handshake
import Uplink.Proofs.Registry.Inert
import Uplink.Proofs.Registry.Linear
import Uplink.Proofs.Registry.Linearizable
import Uplink.Proofs.Registry.Origin
import Uplink.Proofs.Registry.Plain
import Uplink.Proofs.Registry.Release
import Uplink.Proofs.Registry.Replacement
import Uplink.Proofs.Registry.Sole
import Uplink.Proofs.Registry.Turn
import Uplink.Proofs.RetryPolicy.Delay
import Uplink.Proofs.Settings.Checks
import Uplink.Proofs.Settings.Fields
import Uplink.Proofs.Stream.Apart
import Uplink.Proofs.Stream.Await
import Uplink.Proofs.Stream.Closed
import Uplink.Proofs.Stream.Delivery
import Uplink.Proofs.Stream.Failure
import Uplink.Proofs.Stream.FanOut
import Uplink.Proofs.Stream.Forgetting
import Uplink.Proofs.Stream.GivingUp
import Uplink.Proofs.Stream.Healing
import Uplink.Proofs.Stream.Lifecycle
import Uplink.Proofs.Stream.Noted
import Uplink.Proofs.Stream.Pacing
import Uplink.Proofs.Stream.Reading
import Uplink.Proofs.Stream.Redial
import Uplink.Proofs.Stream.Refusal
import Uplink.Proofs.Stream.Sending
import Uplink.Proofs.Stream.Statistics
import Uplink.Proofs.Stream.Subscription
import Uplink.Proofs.Stream.Transition
import Uplink.Proofs.Stream.Turn
import Uplink.Proofs.Text.Utf8
import Uplink.Proofs.Variant.Conversion
import Uplink.Proofs.Variant.Decode
import Uplink.Proofs.Variant.Line
import Uplink.Proofs.Variant.Meaning
import Uplink.Proofs.Variant.NumberRoundTrip
import Uplink.Proofs.Variant.RoundTrip
import Uplink.Proofs.Variant.Serialization
import Uplink.Request
import Uplink.RetryPolicy
import Uplink.Settings
import Uplink.Settings.Decode
import Uplink.Stream.Connection
import Uplink.Stream.Handshake
import Uplink.Stream.Message
import Uplink.Stream.Registry
import Uplink.Stream.Registry.Run
import Uplink.Stream.Registry.Settle
import Uplink.Stream.Registry.Step
import Uplink.Stream.Run
import Uplink.Stream.Runtime
import Uplink.Stream.State
import Uplink.Stream.Step
import Uplink.Stream.Subscription
import Uplink.Stream.Subscription.Overlap
import Uplink.Stream.Turn
import Uplink.StreamAddress
import Uplink.Text.Blank
import Uplink.Text.Hidden
import Uplink.Text.Quoted
import Uplink.Text.Utf8
import Uplink.Toml
import Uplink.Toml.Number
import Uplink.Toml.Reader
import Uplink.Toml.Text
import Uplink.Toml.Tree
import Uplink.Url
import Uplink.Url.Domain
import Uplink.Url.Host
import Uplink.Url.Percent
import Uplink.Url.Punycode
import Uplink.Variant
