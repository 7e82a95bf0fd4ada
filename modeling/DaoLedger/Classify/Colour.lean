import DaoLedger.Ledger.Query
/-!
Colouring: the BSQ that the inputs carry is given to the outputs in order, to each in full, until
one is not covered. From there on outputs are BTC. What is left over is burnt.
-/
namespace DaoLedger

def Ledger.bsqInput? (l : Ledger) (input : Input) : Option Output :=
  (l.unspent? input.source).filter l.carriesBsq

def Ledger.hasBsqInput (l : Ledger) (inputs : List Input) : Bool :=
  inputs.any fun i => (l.bsqInput? i).isSome

/-- The BSQ that the inputs carry, each input for itself. The sum is exact; a word holds it as long
as it stays below 2^64. -/
def Ledger.inputBudget (l : Ledger) (inputs : List Input) : Nat :=
  total ((inputs.filterMap l.bsqInput?).map (·.amount))

def Ledger.unlocksStake (l : Ledger) (inputs : List Input) : Bool :=
  (inputs.head?.bind l.bsqInput?).any (·.type = .blindVoteLockStake)

structure Candidate where
  position : Nat
  payload : List UInt8
deriving DecidableEq, Repr

def Candidate.type? (c : Candidate) : Option OpReturnType := OpReturnType.ofPayload? c.payload

def Candidate.firstFrom? : Nat → List RawOutput → Option Candidate
  | _, [] => none
  | i, o :: outputs =>
    match o.payload with
    | some payload => some ⟨i, payload⟩
    | none => firstFrom? (i + 1) outputs

/-- What outputs are coloured by: the candidate's place and the role that its type gives others. -/
structure Palette where
  position? : Option Nat
  type? : Option OpReturnType
deriving DecidableEq, Repr

def Palette.of (candidate? : Option Candidate) : Palette :=
  ⟨candidate?.map (·.position), candidate?.bind (·.type?)⟩

/-- The type of a covered output; the first one may hold a stake or a bond. -/
def Palette.covered (p : Palette) (position : Nat) : OutputType :=
  match position, p.type? with
  | 0, some .blindVote => .blindVoteLockStake
  | 0, some .lockup => .bondLock
  | _, _ => .bsqOutput

/-- The type of an output that is not covered; the second one may be a candidate for issuance. -/
def Palette.uncovered (p : Palette) (position : Nat) : OutputType :=
  match position, p.type? with
  | 1, some .compensationRequest => .issuanceCandidate
  | _, _ => .btcOutput

def Palette.opReturn (p : Palette) (position : Nat) : OutputType :=
  if p.position? = some position then .undefined else .invalidOutput

structure Coloured where
  outputs : List Output
  left : Nat
deriving DecidableEq, Repr

def Coloured.cons (o : Output) (c : Coloured) : Coloured := { c with outputs := o :: c.outputs }

def covers (budget : Nat) (o : RawOutput) : Bool := 0 < budget && o.amount ≤ budget

/-- Colours outputs from `position` on. `openTo` says that no output was BTC so far. -/
def Palette.colour (p : Palette) (openTo : Bool) (budget position : Nat) :
    List RawOutput → Coloured
  | [] => ⟨[], budget⟩
  | o :: outputs =>
    if o.isOpReturn then
      (p.colour openTo budget (position + 1) outputs).cons ⟨o, p.opReturn position⟩
    else if openTo && covers budget o then
      (p.colour true (budget - o.amount) (position + 1) outputs).cons ⟨o, p.covered position⟩
    else (p.colour false budget (position + 1) outputs).cons ⟨o, p.uncovered position⟩

def OutputType.plain : OutputType → OutputType
  | .blindVoteLockStake | .bondLock => .bsqOutput
  | .issuanceCandidate => .btcOutput
  | t => t

def Output.plain (o : Output) : Output := { o with type := o.type.plain }

end DaoLedger
