import DaoLedger.Sync.OneShot
import DaoLedger.Sync.Connection
/-!
Requests that wait for their response. A response finds its request by the nonce; each nonce that
waits has a channel of its own.
-/
namespace DaoLedger

structure Pending where
  waiting : Map UInt32 Nat
  channels : List (OneShot BlocksResponse)

namespace Pending

def empty : Pending := ⟨∅, []⟩

def size (p : Pending) : Nat := p.waiting.size

def register (p : Pending) (nonce : UInt32) : Option (Pending × Nat) :=
  if nonce ∈ p.waiting then none
  else some (⟨p.waiting.insert nonce p.channels.length, p.channels ++ [.new]⟩, p.channels.length)

/-- Hands a response to the request that waits for it, and says whether somebody took it. -/
def resolve (p : Pending) (response : BlocksResponse) : Pending × Bool :=
  match p.waiting[response.nonce]? with
  | none => (p, false)
  | some number =>
    (⟨p.waiting.erase response.nonce,
      p.channels.modify number fun c => (c.complete response).1⟩,
      (p.channels[number]?).any (·.heard))

/-- Forgets a nonce, whoever waits for it now. -/
def remove (p : Pending) (nonce : UInt32) : Pending :=
  match p.waiting[nonce]? with
  | none => p
  | some number =>
    ⟨p.waiting.erase nonce, p.channels.modify number fun c => c.cancel.1⟩

def receive (p : Pending) (number : Nat) : Pending × Receipt BlocksResponse :=
  match p.channels[number]? with
  | none => (p, .dropped)
  | some c => ({ p with channels := p.channels.set number c.receive.1 }, c.receive.2)

def dropReceiver (p : Pending) (number : Nat) : Pending :=
  { p with channels := p.channels.modify number OneShot.dropReceiver }

def freeNonce (p : Pending) (draw : UInt32) : UInt32 :=
  (((List.range (p.size + 1)).map fun i => draw + UInt32.ofNat i).find? (· ∉ p.waiting)).getD draw

end Pending

end DaoLedger
