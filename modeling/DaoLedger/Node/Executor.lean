import DaoLedger.Node.Error
import DaoLedger.Node.Metrics
/-!
The executor: the one place where a node writes blocks to its ledger. Jobs are done in the order
of submission; a batch ends with its first block that fails, and keeps those before it. At a block
whose opening has no end the queue stands still.
-/
namespace DaoLedger

structure Executor where
  ledger : Ledger
  metrics : Metrics
  running : Bool
  /-- A block is being opened without end. No other job is begun, and whoever wants to read the
  ledger waits for it too. -/
  stuck : Bool
  /-- What a clock would show for a block, in milliseconds; only the histogram depends on it. -/
  parseTime : RawBlock → Float
  /-- Where the task that applies a block breaks off: what it leaves, and why. -/
  broken? : Ledger → RawBlock → Option (Ledger × String)

namespace Executor

def new (genesis : Genesis) : Executor where
  ledger := .new genesis
  metrics := .new
  running := true
  stuck := false
  parseTime _ := 0
  broken? _ _ := none

def stop (x : Executor) : Executor := { x with running := false }

def counted (m : Metrics) (time : Float) : Result ParseError Block → Metrics
  | .ok b => { m with
      parseDuration := m.parseDuration.observe time
      blocksApplied := m.blocksApplied + 1
      bsqTxsApplied := m.bsqTxsApplied + UInt64.ofNat b.txs.length
      chainHeight := Int64.ofNat b.height.toNat }
  | .error _ => { m with
      parseDuration := m.parseDuration.observe time
      blocksRejected := m.blocksRejected + 1 }
  | .never => m

/-- Applies one block and counts it. A task that breaks off is not counted. -/
def parseOne (x : Executor) (raw : RawBlock) : Executor × Result NodeError Block :=
  match x.broken? x.ledger raw with
  | some (ledger, cause) => ({ x with ledger }, .error (.parseTask cause))
  | none =>
    let (ledger, result) := x.ledger.apply raw
    ({ x with
      ledger
      metrics := counted x.metrics (x.parseTime raw) result
      stuck := x.stuck || result.isNever }, result.mapError .parse)

def parseBatch (x : Executor) : List RawBlock → Executor × List Block × Result NodeError Unit
  | [] => (x, [], .ok ())
  | raw :: raws =>
    match x.parseOne raw with
    | (x, .error e) => (x, [], .error e)
    | (x, .never) => (x, [], .never)
    | (x, .ok b) =>
      let (x, bs, outcome) := x.parseBatch raws
      (x, b :: bs, outcome)

/-! ### Jobs -/

inductive Job where
  | block (raw : RawBlock)
  | batch (raws : List RawBlock)
deriving DecidableEq, Inhabited, Repr

/-- The answer to a job: a result, or the progress of a batch closed by how it ended, which is
the number of its blocks or its first error. -/
inductive Reply where
  | block (result : Result NodeError Block)
  | batch (parsed : List Block) (finished : Result NodeError Nat)

/-- What is heard of a job that is not begun. -/
def Job.unanswered : Job → Reply
  | .block _ => .block .never
  | .batch _ => .batch [] .never

def perform (x : Executor) (job : Job) : Executor × Reply :=
  if x.stuck then (x, job.unanswered)
  else
    match job with
    | .block raw =>
      let (x, result) := x.parseOne raw
      (x, .block result)
    | .batch raws =>
      let (x, parsed, outcome) := x.parseBatch raws
      (x, .batch parsed (outcome.map fun () => raws.length))

def run (x : Executor) : List Job → Executor × List Reply
  | [] => (x, [])
  | job :: jobs =>
    let (x, reply) := x.perform job
    let (x, replies) := x.run jobs
    (x, reply :: replies)

/-! ### Submitting -/

def parseBlock (x : Executor) (raw : RawBlock) : Executor × Result NodeError Block :=
  if !x.running then (x, .error .executorStopped)
  else if x.stuck then (x, .never)
  else x.parseOne raw

def parseBlocks (x : Executor) (raws : List RawBlock) : Executor × Result NodeError Nat :=
  if !x.running then (x, .error .executorStopped)
  else if x.stuck then (x, .never)
  else
    let (x, _, outcome) := x.parseBatch raws
    (x, outcome.map fun () => raws.length)

end Executor

end DaoLedger
