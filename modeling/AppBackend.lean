import AppBackend.Client.FileBucket
import AppBackend.Client.Gateway
import AppBackend.Network.Engine
import AppBackend.Server.Backend
import AppBackend.Transfer.Replay
import AppBackend.Proofs.Pool.Lending
import AppBackend.Proofs.Client.Nesting
import AppBackend.Proofs.Client.Operation
import AppBackend.Proofs.Client.SessionHistory
import AppBackend.Proofs.Json.Numbers
import AppBackend.Proofs.Json.RoundTrip
import AppBackend.Proofs.Json.Records
import AppBackend.Proofs.Json.Keys
import AppBackend.Proofs.Client.LoginTransfer
import AppBackend.Proofs.Server.Exchange
import AppBackend.Proofs.Server.PartialUpdate
import AppBackend.Proofs.Transfer.Streaming
import AppBackend.Proofs.Transfer.VerifiedDownload
import AppBackend.Proofs.Server.Changes
import AppBackend.Proofs.Server.Parameters
import AppBackend.Proofs.Server.ConditionalWrites
import AppBackend.Proofs.Server.Locality
import AppBackend.Proofs.Server.Paths
import AppBackend.Proofs.Server.Admission
import AppBackend.Proofs.Server.Delivery
import AppBackend.Proofs.Server.ObjectHistory
import AppBackend.Proofs.Server.ObjectRoundTrip
import AppBackend.Proofs.Server.FileHistory
import AppBackend.Proofs.Server.FileRoundTrip
import AppBackend.Proofs.Server.Access
import AppBackend.Proofs.Client.Contact
import AppBackend.Proofs.Decimal.Rounding
import AppBackend.Proofs.Decimal.Shortest
import AppBackend.Proofs.Json.Floats
import AppBackend.Proofs.Json.Reading
import AppBackend.Proofs.Server.FileListing
import AppBackend.Proofs.Server.ObjectIdentity
import AppBackend.Proofs.Json.Members
import AppBackend.Proofs.Json.Conversion
import AppBackend.Proofs.Client.Traffic
import AppBackend.Proofs.Client.LoginReply
import AppBackend.Proofs.Client.LoginAgreement
import AppBackend.Proofs.Client.Logout
import AppBackend.Proofs.Client.Precedence
import AppBackend.Proofs.Pool.Reuse
import AppBackend.Proofs.Client.Query
import AppBackend.Proofs.Client.Headers
import AppBackend.Proofs.Client.Steps
import AppBackend.Proofs.Transfer.Classification
import AppBackend.Proofs.Client.Resending
import AppBackend.Proofs.Client.GatewayEdits
import AppBackend.Proofs.Server.Visibility
import AppBackend.Proofs.Network.Building
import AppBackend.Proofs.Network.KeptAgents
