import RemoteCall.Value.Display
import RemoteCall.Cancellation
import RemoteCall.Address
import RemoteCall.Network.Scripted
import RemoteCall.Network.Pipe
import RemoteCall.Network.Handles
import RemoteCall.Session
import RemoteCall.Files.Service
import RemoteCall.Demo.Methods
import RemoteCall.Demo.Types
import RemoteCall.Proofs.Codec.Maps
import RemoteCall.Proofs.Codec.Places
import RemoteCall.Proofs.Codec.Buffers
import RemoteCall.Proofs.Value.Integers
import RemoteCall.Proofs.Value.Arguments
import RemoteCall.Proofs.Files.Confinement
import RemoteCall.Proofs.Network.Conservation
import RemoteCall.Proofs.Network.Stranding
import RemoteCall.Proofs.Network.Order
import RemoteCall.Proofs.Exchange.Speaking
import RemoteCall.Proofs.Message.Written
import RemoteCall.Proofs.Message.Truncated
import RemoteCall.Proofs.Registry.Contents
import RemoteCall.Proofs.Registry.Refusals
import RemoteCall.Proofs.System.Isolation
import RemoteCall.Proofs.Serve.Filling
import RemoteCall.Proofs.Call.Malformed
import RemoteCall.Proofs.Call.Discipline
import RemoteCall.Proofs.Call.Interpreted
import RemoteCall.Proofs.Client.Accounts
import RemoteCall.Proofs.Client.Flushing
import RemoteCall.Proofs.Server.Cancelling
