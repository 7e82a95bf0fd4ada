import DaoLedger.Text.Shortest
/-!
What a node counts about itself, and the text in which it is published: counters that only grow,
gauges that are set, and a histogram of parse times.
-/
namespace DaoLedger

/-- Observations sorted into buckets. A bucket counts what is at most its bound and above the
bounds before it. -/
structure Histogram where
  buckets : List (Float × Nat)
  count : Nat
  sum : Float
deriving Inhabited, Repr

namespace Histogram

def exponential (first factor : Float) : Nat → List Float
  | 0 => []
  | n + 1 => first :: exponential (first * factor) factor n

def new (bounds : List Float) : Histogram := ⟨bounds.map fun b => (b, 0), 0, 0⟩

def countIn (x : Float) : List (Float × Nat) → List (Float × Nat)
  | [] => []
  | (bound, n) :: buckets =>
    if x ≤ bound then (bound, n + 1) :: buckets else (bound, n) :: countIn x buckets

def observe (h : Histogram) (x : Float) : Histogram :=
  ⟨countIn x h.buckets, h.count + 1, h.sum + x⟩

/-- Each bound with the number of observations at or below it. -/
def cumulative (seen : Nat) : List (Float × Nat) → List (Float × Nat)
  | [] => []
  | (bound, n) :: buckets => (bound, seen + n) :: cumulative (seen + n) buckets

end Histogram

structure Metrics where
  blocksApplied : UInt64
  bsqTxsApplied : UInt64
  blocksRejected : UInt64
  getBlocksServed : UInt64
  getBlocksFaults : UInt64
  chainHeight : Int64
  peerCount : Int64
  parseDuration : Histogram
deriving Inhabited, Repr

namespace Metrics

def new : Metrics where
  blocksApplied := 0
  bsqTxsApplied := 0
  blocksRejected := 0
  getBlocksServed := 0
  getBlocksFaults := 0
  chainHeight := 0
  peerCount := 0
  parseDuration := .new (Histogram.exponential 0.1 2 15)

/-! ### Text -/

def heading (name help kind : String) : List String :=
  ["# HELP " ++ name ++ " " ++ help, "# TYPE " ++ name ++ " " ++ kind]

def counter (name help : String) (n : UInt64) : List String :=
  heading name help "counter" ++ [name ++ " " ++ Text.ofFloat n.toFloat]

def gauge (name help : String) (n : Int64) : List String :=
  heading name help "gauge" ++ [name ++ " " ++ Text.ofFloat n.toFloat]

def bucketLine (name bound : String) (n : Nat) : String :=
  name ++ "_bucket\x7ble=\"" ++ bound ++ "\"\x7d " ++ toString n

def histogram (name help : String) (h : Histogram) : List String :=
  heading name help "histogram"
    ++ (Histogram.cumulative 0 h.buckets).map (fun b => bucketLine name (Text.ofFloat b.1) b.2)
    ++ [bucketLine name "+Inf" h.count, name ++ "_sum " ++ Text.ofFloat h.sum,
      name ++ "_count " ++ toString h.count]

def lines (m : Metrics) : List String :=
  counter "bsq_blocks_applied_total" "Blocks committed to the DAO state" m.blocksApplied
    ++ counter "bsq_blocks_rejected_total" "Blocks rejected by parser or store" m.blocksRejected
    ++ gauge "bsq_chain_height" "Height of the last committed block" m.chainHeight
    ++ counter "bsq_get_blocks_faults_total"
      "GetBlocksRequests ending in send failure or timeout" m.getBlocksFaults
    ++ counter "bsq_get_blocks_served_total" "GetBlocksRequests answered successfully"
      m.getBlocksServed
    ++ histogram "bsq_parse_duration_ms" "Block parse time in milliseconds" m.parseDuration
    ++ gauge "bsq_peer_count" "Current number of connected peers" m.peerCount
    ++ counter "bsq_txs_applied_total" "BSQ txs in committed blocks" m.bsqTxsApplied

end Metrics

end DaoLedger
