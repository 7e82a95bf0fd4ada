/-!
Amounts and spans of blocks for human readers.
-/
namespace DaoLedger.Text

/-- One BSQ is a hundred satoshi; both decimals are always written. -/
def bsq (satoshi : Nat) : String :=
  let cents := satoshi % 100
  let zero := if cents < 10 then "0" else ""
  s!"{satoshi / 100}.{zero}{cents} BSQ"

def blockSpan (blocks : Nat) : String :=
  let minutes := 10 * blocks
  if minutes < 60 then s!"{minutes}m"
  else if minutes < 1440 then s!"{minutes / 60}h {minutes % 60}m"
  else s!"{minutes / 1440}d {minutes % 1440 / 60}h"

end DaoLedger.Text
