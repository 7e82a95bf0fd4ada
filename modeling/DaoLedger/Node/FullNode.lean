import DaoLedger.Node.Executor
import DaoLedger.Sync.Serving
/-!
A full node: it applies the blocks of the chain feed, tells its peers of each, and answers their
requests. It does not send by itself: what it has to send is handed out as deliveries, and how
each of them ended is reported back. A peer to which a delivery fails is dropped and its
connection closed.
-/
namespace DaoLedger

inductive Delivery where
  | newBlock (connection : Connection) (block : RawBlock)
  | answer (connection : Connection) (response : BlocksResponse)
deriving DecidableEq, Inhabited, Repr

def Delivery.connection : Delivery → Connection
  | .newBlock connection _ => connection
  | .answer connection _ => connection

def Delivery.message : Delivery → Message
  | .newBlock _ block => .newBlock block
  | .answer _ response => .blocks response

structure FullNode where
  executor : Executor
  peers : Map UInt64 Connection
  deliveries : Map Nat Delivery
  nextDelivery : Nat

namespace FullNode

def new (executor : Executor) : FullNode := ⟨executor, ∅, ∅, 0⟩

def peerList (n : FullNode) : List Connection := n.peers.toList.map (·.2)

/-- The node with other peers; the gauge follows. -/
def withPeers (n : FullNode) (peers : Map UInt64 Connection) : FullNode :=
  { n with peers, executor.metrics.peerCount := Int64.ofNat peers.size }

def addPeer (n : FullNode) (c : Connection) : FullNode := n.withPeers (n.peers.insert c.id c)

def removePeer (n : FullNode) (c : Connection) : FullNode := n.withPeers (n.peers.erase c.id)

def dispatch (n : FullNode) : List Delivery → FullNode × List (Nat × Delivery)
  | [] => (n, [])
  | d :: ds =>
    let number := n.nextDelivery
    let (n, rest) := dispatch
      { n with deliveries := n.deliveries.insert number d, nextDelivery := number + 1 } ds
    (n, (number, d) :: rest)

def broadcast (n : FullNode) (block : Block) : FullNode × List (Nat × Delivery) :=
  n.dispatch (n.peerList.map fun c => .newBlock c block.raw)

def applyBlock (n : FullNode) (raw : RawBlock) :
    FullNode × Result NodeError Block × List (Nat × Delivery) :=
  match n.executor.parseBlock raw with
  | (executor, .never) => ({ n with executor }, .never, [])
  | (executor, .error e) => ({ n with executor }, .error e, [])
  | (executor, .ok block) =>
    let (n, sends) := { n with executor }.broadcast block
    (n, .ok block, sends)

/-- Answers a request with the blocks that are there now. The answer does not come while the ledger
is not to be read. -/
def serve (n : FullNode) (fromHeight nonce : UInt32) (c : Connection) :
    FullNode × List (Nat × Delivery) :=
  if n.executor.stuck then (n, [])
  else n.dispatch [.answer c (n.executor.ledger.response fromHeight nonce)]

def closeReason? : SendResult → Option CloseReason
  | .sent => none
  | .failed _ => some .sendFailure
  | .timedOut => some .sendTimeout

def counted (m : Metrics) (d : Delivery) (result : SendResult) : Metrics :=
  match d, result with
  | .newBlock .., _ => m
  | .answer .., .sent => { m with getBlocksServed := m.getBlocksServed + 1 }
  | .answer .., _ => { m with getBlocksFaults := m.getBlocksFaults + 1 }

/-- A delivery has ended. Each ends once; what is reported of others changes nothing. The
connection to be closed comes with its reason. -/
def settle (n : FullNode) (number : Nat) (result : SendResult) :
    FullNode × Option (Connection × CloseReason) :=
  match n.deliveries[number]? with
  | none => (n, none)
  | some d =>
    let n := { n with
      deliveries := n.deliveries.erase number
      executor.metrics := counted n.executor.metrics d result }
    match closeReason? result with
    | none => (n, none)
    | some reason => (n.removePeer d.connection, some (d.connection, reason))

/-- What a connection reports. Other messages than requests do not concern a full node. -/
def handle (n : FullNode) : PeerEvent → FullNode × List (Nat × Delivery)
  | .connected c => (n.addPeer c, [])
  | .disconnected c => (n.removePeer c, [])
  | .received c (.getBlocks fromHeight nonce) => n.serve fromHeight nonce c
  | .received _ _ => (n, [])

end FullNode

end DaoLedger
