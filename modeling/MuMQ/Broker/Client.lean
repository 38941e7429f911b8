import MuMQ.Broker.Memory
import MuMQ.Broker.Utility
import MuMQ.Mqtt.Parser

namespace MuMQ

/-- `enum client_state`. -/
inductive ClientState where
  | csNew
  | csConnected
  | csDisconnecting
  | csConnectAsync
  | csConnectPending
  | csConnectSrv
  | csDisconnectWs
  | csDisconnected
  | csExpiring
  deriving DecidableEq

/-- `struct packet`.  Its `next` is the packet that follows it in the list it is
in. -/
structure Packet where
  address : Address
  sendBuf : List UInt8
  wcur : UInt32
  wlen : UInt32
  deriving DecidableEq

/-- The fields of `struct client` that sending works on.  `sendingPacket` is the
chain of packets from the head pointer, `sendingPacketTail` the tail pointer. -/
structure Sender where
  sendingPacket : List Packet
  sendingPacketTail : Option Address
  sendingCurPacket : Option Packet
  numSendingPack : Int
  sndNum : UInt32
  deriving DecidableEq

namespace Sender

/-- The fields as `memset` leaves them. -/
def zero : Sender := ⟨[], none, none, 0, 0⟩

end Sender

/-- The fields of `struct client` that receiving works on. -/
structure Reader where
  inPacket : Option Message
  inParser : Parser
  remainingCount : Int8
  remainingMult : UInt32
  inPayload : Option (List UInt8)
  inToProcess : UInt32
  inCur : UInt32
  deriving DecidableEq

namespace Reader

def zero : Reader := ⟨none, .zero, 0, 0, none, 0, 0⟩

end Reader

/-- `struct client`, a slot of the broker's table of clients. -/
structure Client where
  sock : Nat
  id : List UInt8
  lastMid : UInt16
  state : ClientState
  reader : Reader
  outPacket : Option Message
  sender : Sender
  isSubscribe : Bool
  subs : List (Option Address)
  subCount : Nat
  deriving DecidableEq

namespace Client

def zero : Client where
  sock := 0
  id := List.replicate 24 0
  lastMid := 0
  state := .csNew
  reader := .zero
  outPacket := none
  sender := .zero
  isSubscribe := false
  subs := []
  subCount := 0

/-- The client id as `strcmp` reads it. -/
def idString (client : Client) : CString := .ofBuffer client.id

end Client

end MuMQ
