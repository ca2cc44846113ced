import EvmBabble.State.ReadOnly
import EvmBabble.State.Sample
import EvmBabble.State.Rejected
import EvmBabble.State.Reference
import EvmBabble.State.Stored
import EvmBabble.State.Recovery
import EvmBabble.State.Crash
import EvmBabble.State.Restart
import EvmBabble.Library.Mutex
import EvmBabble.Proxy.Startup
import EvmBabble.Service.Handlers
import EvmBabble.Service.Submission
import EvmBabble.Service.Node
import EvmBabble.Service.Nonces
import EvmBabble.Library.Overwrite
import EvmBabble.State.Atomic
import EvmBabble.State.Prediction
import EvmBabble.State.Lifetime
import EvmBabble.State.Receipts
import EvmBabble.State.Batches
import EvmBabble.State.Genesis
import EvmBabble.State.GenesisOrder
import EvmBabble.State.Archive
import EvmBabble.State.History
import EvmBabble.Service.Reads
import EvmBabble.Proxy.Pipeline
import EvmBabble.Service.Intent
import EvmBabble.State.GasPool
import EvmBabble.State.Numbering
import EvmBabble.Proxy.Delivery
import EvmBabble.Library.Fairness
import EvmBabble.Proxy.Network
import EvmBabble.Proxy.Quiescence
import EvmBabble.State.Faulty
import EvmBabble.Demo.CrowdFunding
import EvmBabble.Client.Requests
