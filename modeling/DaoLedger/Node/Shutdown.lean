/-!
The shutdown signal. Every receiver that is there when it is given gets it; a receiver that has
missed one hears of that first and then gets the latest.
-/
namespace DaoLedger

/-- For each receiver the number of signals that it has not heard of. -/
structure Shutdown where
  unheard : List Nat
deriving DecidableEq, Inhabited, Repr

namespace Shutdown

def new : Shutdown := ⟨[]⟩

def subscribe (s : Shutdown) : Shutdown := ⟨s.unheard ++ [0]⟩

def signal (s : Shutdown) : Shutdown := ⟨s.unheard.map (· + 1)⟩

def leftover (unheard : Nat) : Nat := if 1 < unheard then 1 else 0

def poll (s : Shutdown) : Shutdown × List Bool :=
  (⟨s.unheard.map leftover⟩, s.unheard.map (· == 1))

end Shutdown

end DaoLedger
