import MuMQ.Broker.Conversation
import MuMQ.Broker.ConcurrentRouting
import MuMQ.Broker.HashRuns
import MuMQ.Substree.TokenList
import MuMQ.Tools.Distribution
import MuMQ.Broker.FilledQueues
import MuMQ.Broker.TopicScan
import MuMQ.Broker.Turn
import MuMQ.Broker.PayloadBuffer
import MuMQ.Broker.RemainingLength
import MuMQ.Mqtt.PublishBody
import MuMQ.Mqtt.ConnectGrammar
import MuMQ.Mqtt.Resume
import MuMQ.Substree.Levels
import MuMQ.Broker.EventLoop
import MuMQ.Broker.Unsupported
import MuMQ.Substree.Failure
import MuMQ.Substree.Nodes
import MuMQ.Broker.Representation
import MuMQ.Broker.Slot
import MuMQ.Broker.Connacks
import MuMQ.Broker.Replies
import MuMQ.Mqtt.SubscribeParse
import MuMQ.Broker.Acknowledgement
import MuMQ.Broker.Unconnected
import MuMQ.Mqtt.PublishParse
import MuMQ.Mqtt.Bounds
import MuMQ.Broker.Interference
import MuMQ.Substree.Others
import MuMQ.Broker.Service
import MuMQ.Broker.Subscriptions
import MuMQ.Broker.Handover
import MuMQ.Broker.Counter
import MuMQ.Broker.Loop
import MuMQ.Broker.Handling
import MuMQ.Broker.Sending
import MuMQ.Broker.ConnectFrame
import MuMQ.Mqtt.ConnectBody
import MuMQ.Mqtt.ConnectParse
import MuMQ.Broker.PublishFrame
import MuMQ.Mqtt.Encoding
import MuMQ.Broker.HandMqtt
import MuMQ.Broker.Reading
import MuMQ.Broker.Framing
import MuMQ.Data.Framing
import MuMQ.Broker.EventIo
import MuMQ.Broker.Stream
import MuMQ.Data.Run
import MuMQ.Substree.Routing
import MuMQ.Substree.Matching
import MuMQ.Substree.Validity
import MuMQ.Substree.SubAdd
import MuMQ.Substree.Insert
import MuMQ.Substree.Outcome
import MuMQ.Substree.Sites
import MuMQ.Data.Edit
import MuMQ.Data.Matching
import MuMQ.Broker.State
import MuMQ.Substree.Subhier
import MuMQ.Substree.Tokenise
import MuMQ.Broker.Queue
import MuMQ.Mqtt.Serialiser
import MuMQ.Broker.Uthash
import MuMQ.Data.Links
import MuMQ.Broker.Exchange
import MuMQ.Broker.Verbatim
import MuMQ.Broker.Reach
import MuMQ.Broker.ByteRuns
