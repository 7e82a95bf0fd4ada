import DaoLedger.Chain.Block
import DaoLedger.Governance.Cycle
/-!
What the recorded param changes mean for a height: the value of each param, and the cycles, whose
phase lengths are fixed by the params at their first block.
-/
namespace DaoLedger

def ParamChange.effective (c : ParamChange) (param : Param) (height : Nat) : Bool :=
  c.param = param && c.activationHeight.toNat ≤ height

/-- The one activated last, of equal ones the one recorded last. -/
def ParamChange.latest? : List ParamChange → Option ParamChange
  | [] => none
  | c :: cs =>
    match latest? cs with
    | none => some c
    | some d => some (if c.activationHeight ≤ d.activationHeight then d else c)

/-- The value at `height` after the given changes, in the order in which they were recorded. -/
def Param.valueAt (param : Param) (changes : List ParamChange) (height : Nat) : Nat :=
  ((ParamChange.latest? (changes.filter (·.effective param height))).map (·.value)).getD
    param.default

def Cycle.startingAt (changes : List ParamChange) (firstBlock : Nat) : Cycle where
  firstBlock := firstBlock
  phases := Phase.all.map fun p =>
    (p, min (p.durationParam.valueAt changes firstBlock) heightLimit)

def Cycle.nextStart (genesisHeight : Nat) : List Cycle → Nat
  | [] => genesisHeight
  | c :: _ => c.lastBlock + 1

/-- One round of opening cycles: the next one is opened if it starts up to `height` and has
blocks. -/
def Cycle.round? (changes : List ParamChange) (genesisHeight height : Nat) (cycles : List Cycle) :
    Option (List Cycle) :=
  let c := startingAt changes (nextStart genesisHeight cycles)
  if c.firstBlock ≤ height ∧ c.duration ≠ 0 then some (c :: cycles) else none

/-- The cycles after the rounds from `start` on that get any further. One that starts at the height
limit does not, since the next cycle starts there again. -/
def Cycle.cover (changes : List ParamChange) (height start : Nat) (cycles : List Cycle) :
    List Cycle :=
  if start ≤ height then
    let c := Cycle.startingAt changes start
    if c.duration = 0 then cycles
    else if c.lastBlock < start then cycles
    else cover changes height (c.lastBlock + 1) (c :: cycles)
  else cycles
termination_by height + 1 - start
decreasing_by
  have h : ¬(Cycle.startingAt changes start).lastBlock < start := ‹_›
  omega

/-- Whether the rounds have no end: one is still due where none gets any further. -/
def Cycle.endless (changes : List ParamChange) (genesisHeight height : Nat) (cycles : List Cycle) :
    Bool :=
  (round? changes genesisHeight height
    (cover changes height (nextStart genesisHeight cycles) cycles)).isSome

end DaoLedger
