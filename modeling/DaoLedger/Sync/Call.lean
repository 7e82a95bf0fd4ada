import DaoLedger.Sync.Pending
/-!
Asking a peer for blocks. A call registers a nonce, sends the request, waits for the response or
for its time to run out, and removes its nonce when it leaves, however it ends.
-/
namespace DaoLedger

def answerTimeout : Nat := 120000

structure Call where
  connection : Connection
  fromHeight : UInt32
  nonce : UInt32
  channel : Nat
deriving DecidableEq, Inhabited, Repr

namespace Call

/-- Registers under the first free nonce from `draw` on; none only if all nonces wait. -/
def start? (p : Pending) (connection : Connection) (fromHeight draw : UInt32) :
    Option (Pending × Call) :=
  let nonce := p.freeNonce draw
  (p.register nonce).map fun (p, channel) => (p, ⟨connection, fromHeight, nonce, channel⟩)

def request (c : Call) : Message := .getBlocks c.fromHeight c.nonce

def answer? (c : Call) (p : Pending) : Option (Except NetworkError BlocksResponse) :=
  match (p.receive c.channel).2 with
  | .value response => some (.ok response)
  | .empty => none
  | _ => some (.error .channelClosed)

def leave (c : Call) (p : Pending) : Pending :=
  (p.remove c.nonce).dropReceiver c.channel

end Call

end DaoLedger
