import NoiseTunnel.Accepting
import NoiseTunnel.Agreement
import NoiseTunnel.Budget
import NoiseTunnel.Channel
import NoiseTunnel.Client
import NoiseTunnel.Close
import NoiseTunnel.Completed
import NoiseTunnel.Concrete
import NoiseTunnel.Delivery
import NoiseTunnel.Dialogue
import NoiseTunnel.Echo
import NoiseTunnel.Exhaustion
import NoiseTunnel.Feeds
import NoiseTunnel.Framing
import NoiseTunnel.Hostile
import NoiseTunnel.Impersonation
import NoiseTunnel.Keys
import NoiseTunnel.Loops
import NoiseTunnel.Nonces
import NoiseTunnel.Numbering
import NoiseTunnel.Outcome
import NoiseTunnel.Pairing
import NoiseTunnel.Peers
import NoiseTunnel.Pipeline
import NoiseTunnel.Places
import NoiseTunnel.Queries
import NoiseTunnel.Reordering
import NoiseTunnel.Replay
import NoiseTunnel.Replies
import NoiseTunnel.Resets
import NoiseTunnel.Sequence
import NoiseTunnel.Server
import NoiseTunnel.Sessions
import NoiseTunnel.Standing
import NoiseTunnel.Streams
import NoiseTunnel.Survival
import NoiseTunnel.Tally
import NoiseTunnel.Terminal
import NoiseTunnel.Traffic
import NoiseTunnel.Transcript
import NoiseTunnel.Turns
import NoiseTunnel.Unfiltered
