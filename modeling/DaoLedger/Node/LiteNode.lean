import DaoLedger.Node.Executor
import DaoLedger.Sync.Call
/-!
A lite node: it asks its full node for everything above its tip, then keeps up with the blocks
that the full node announces. An announced block that does not connect makes it ask again.
-/
namespace DaoLedger

inductive Work where
  | sync (connection : Connection)
  | newBlock (connection : Connection) (block : RawBlock)
deriving DecidableEq, Inhabited, Repr

def Work.connection : Work → Connection
  | .sync connection => connection
  | .newBlock connection _ => connection

structure LiteNode where
  executor : Executor
  pending : Pending
  fullNode : Option Connection

namespace LiteNode

def new (executor : Executor) : LiteNode := ⟨executor, .empty, none⟩

def nextHeight (n : LiteNode) : UInt32 :=
  match n.executor.ledger.tip? with
  | some tip => tip.height + 1
  | none => n.executor.ledger.genesis.blockHeight

def connects (n : LiteNode) (raw : RawBlock) : Bool :=
  match n.executor.ledger.tip? with
  | some tip => raw.previousHash = tip.hash
  | none => raw.height = n.nextHeight

/-- Calls a peer for everything from the next height on. None while the ledger is not to be
read. -/
def call? (n : LiteNode) (c : Connection) (draw : UInt32) : Option (LiteNode × Call) :=
  if n.executor.stuck then none
  else
    (Call.start? n.pending c n.nextHeight draw).map fun (pending, call) =>
      ({ n with pending }, call)

def applyNew (n : LiteNode) (raws : List RawBlock) : LiteNode × Result NodeError Nat :=
  if n.executor.stuck then (n, .never)
  else
    match raws.filter (n.nextHeight ≤ ·.height) with
    | [] => (n, .ok 0)
    | fresh =>
      let (executor, result) := n.executor.parseBlocks fresh
      ({ n with executor }, result)

/-- A call has ended: its nonce is forgotten, and a response is applied. -/
def finish (n : LiteNode) (call : Call) (result : Except NetworkError BlocksResponse) :
    LiteNode × Result NodeError Nat :=
  let n := { n with pending := call.leave n.pending }
  match result with
  | .error e => (n, .error (.network e))
  | .ok response => n.applyNew response.blocks

def abandon (n : LiteNode) (call : Call) : LiteNode :=
  { n with pending := call.leave n.pending }

/-- Applies an announced block if it continues the chain, and drops it if it is there already.
None if the node has to ask for what lies between. -/
def takeBlock (n : LiteNode) (raw : RawBlock) : LiteNode × Option (Result NodeError Unit) :=
  if n.executor.stuck then (n, some .never)
  else if raw.height < n.nextHeight then (n, some (.ok ()))
  else if n.connects raw then
    let (executor, result) := n.executor.parseBlock raw
    ({ n with executor }, some (result.map fun _ => ()))
  else (n, none)

/-- What a connection reports. Responses go to their calls at once, work is queued. -/
def route (n : LiteNode) : PeerEvent → LiteNode × Option Work
  | .connected c =>
    let n := { n with executor.metrics.peerCount := n.executor.metrics.peerCount + 1 }
    match n.fullNode with
    | none => ({ n with fullNode := some c }, some (.sync c))
    | some _ => (n, none)
  | .disconnected c =>
    let n := { n with executor.metrics.peerCount := n.executor.metrics.peerCount - 1 }
    (if n.fullNode.any (·.id = c.id) then { n with fullNode := none } else n, none)
  | .received _ (.blocks response) => ({ n with pending := (n.pending.resolve response).1 }, none)
  | .received c (.newBlock raw) => (n, some (.newBlock c raw))
  | .received _ (.getBlocks ..) => (n, none)

end LiteNode

end DaoLedger
