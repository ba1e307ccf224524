import ZlNet.Engine.Proof.Guard
import ZlNet.Engine.Proof.Callbacks
import ZlNet.Engine.Proof.Isolation
import ZlNet.Engine.Proof.Origin
import ZlNet.Engine.Proof.Unpack
import ZlNet.Engine.Proof.Messages
import ZlNet.Engine.Proof.RoundTrip
import ZlNet.Engine.Proof.Kept
import ZlNet.Engine.Proof.Exclusive
import ZlNet.Engine.Proof.Identity
import ZlNet.Engine.Proof.Setup
import ZlNet.Engine.Proof.Orphans
import ZlNet.Engine.Proof.Threads
import ZlNet.Engine.Proof.Wrapped
import ZlNet.Engine.Proof.Cluster
import ZlNet.Network.Proof.Buffer
import ZlNet.Network.Proof.Heard
import ZlNet.Network.Proof.BufferRun
import ZlNet.Network.Proof.Loop
import ZlNet.Network.Proof.RingRun
import ZlNet.Network.Proof.Wakeup
import ZlNet.Network.Proof.Send
import ZlNet.Network.Proof.Segments
import ZlNet.Network.Proof.Listening
import ZlNet.Network.Proof.Accepting
import ZlNet.Network.Proof.Growth
import ZlNet.Network.Proof.Drained
import ZlNet.Network.Proof.FreeSpace
import ZlNet.Network.Proof.StackMonitor
import ZlNet.Engine.Proof.Link
import ZlNet.Engine.Proof.Agreement
import ZlNet.Engine.Proof.Delivery
import ZlNet.Engine.Proof.Arrival
