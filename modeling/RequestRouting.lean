import RequestRouting.Assembly.Component
import RequestRouting.Config.View
import RequestRouting.Proofs.Assembly.Access
import RequestRouting.Proofs.Assembly.Arrays
import RequestRouting.Proofs.Assembly.Atomicity
import RequestRouting.Proofs.Assembly.Attached
import RequestRouting.Proofs.Assembly.Bound
import RequestRouting.Proofs.Assembly.Captured
import RequestRouting.Proofs.Assembly.Cycles
import RequestRouting.Proofs.Assembly.Dispatching
import RequestRouting.Proofs.Assembly.ErrorPages
import RequestRouting.Proofs.Assembly.InForce
import RequestRouting.Proofs.Assembly.Redirects
import RequestRouting.Proofs.Assembly.Requirement
import RequestRouting.Proofs.Assembly.Scoping
import RequestRouting.Proofs.Assembly.Singletons
import RequestRouting.Proofs.Assembly.Spelling
import RequestRouting.Proofs.Assets.Generation
import RequestRouting.Proofs.Assets.Minification
import RequestRouting.Proofs.Chain.Lasting
import RequestRouting.Proofs.Chain.Offers
import RequestRouting.Proofs.Chain.Record
import RequestRouting.Proofs.Chain.Transparency
import RequestRouting.Proofs.Config.LongForm
import RequestRouting.Proofs.Config.MediaTypes
import RequestRouting.Proofs.Config.Units
import RequestRouting.Proofs.Dispatch.Globals
import RequestRouting.Proofs.Documents.Preference
import RequestRouting.Proofs.Documents.Staleness
import RequestRouting.Proofs.Files.Answers
import RequestRouting.Proofs.Files.Conditional
import RequestRouting.Proofs.Files.Confined
import RequestRouting.Proofs.Files.HeadRequests
import RequestRouting.Proofs.Files.Listing
import RequestRouting.Proofs.Http.Codings
import RequestRouting.Proofs.Http.Written
import RequestRouting.Proofs.Route.Table
import RequestRouting.Proofs.Routing.Best
import RequestRouting.Proofs.Routing.Flattening
import RequestRouting.Proofs.Routing.Gate
import RequestRouting.Proofs.Routing.Inverse
import RequestRouting.Proofs.Routing.Mount
import RequestRouting.Proofs.Routing.Remainder
import RequestRouting.Proofs.Routing.Rotation
import RequestRouting.Proofs.Routing.Substitution
import RequestRouting.Proofs.Serving.Authentication
import RequestRouting.Proofs.Serving.Caching
import RequestRouting.Proofs.Serving.Following
import RequestRouting.Proofs.Serving.OnHost
import RequestRouting.Proofs.Serving.Termination
import RequestRouting.Route.Table
import RequestRouting.Trial.Script
