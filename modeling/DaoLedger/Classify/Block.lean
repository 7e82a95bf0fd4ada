import DaoLedger.Classify.Tx
import DaoLedger.Ledger.Store
/-!
Applying raw blocks. Each transaction is classified against the ledger with the earlier ones of
its block already entered.
-/
namespace DaoLedger

inductive ParseError where
  | invalidGenesis (fault : GenesisFault)
  | alreadyParsed (height : UInt32)
  | ledger (error : LedgerError)
deriving DecidableEq, Inhabited, Repr

def ParseError.message : ParseError → String
  | .invalidGenesis fault => fault.message
  | .alreadyParsed height => s!"block {height} was already parsed"
  | .ledger error => error.message

structure Parsing where
  ledger : Ledger
  rejections : List Rejection
  outcome : Except ParseError Unit

/-- Enters a classified transaction and its event. A failure keeps what was entered before. -/
def Ledger.enter (l : Ledger) (c : Classified) : Ledger × Except ParseError Unit :=
  if c.isBsq then
    match l.addTx c.tx with
    | .error e => (l, .error (.ledger e))
    | .ok l =>
      match c.event with
      | none => (l, .ok ())
      | some event =>
        match l.addEvent event with
        | .error e => (l, .error (.ledger e))
        | .ok l => (l, .ok ())
  else (l, .ok ())

def Ledger.parseTxs (l : Ledger) (height : UInt32) : List RawTx → Parsing
  | [] => ⟨l, [], .ok ()⟩
  | tx :: txs =>
    match l.classify tx height with
    | .error fault => ⟨l, [], .error (.invalidGenesis fault)⟩
    | .ok c =>
      match l.enter c with
      | (l, .error e) => ⟨l, c.rejection.toList, .error e⟩
      | (l, .ok ()) =>
        let rest := l.parseTxs height txs
        { rest with rejections := c.rejection.toList ++ rest.rejections }

/-- None if opening the block has no end. -/
def Ledger.parse (l : Ledger) (raw : RawBlock) : Option Parsing :=
  if l.containsBlock raw.height raw.hash then some ⟨l, [], .error (.alreadyParsed raw.height)⟩
  else
    match l.start raw with
    | .never => none
    | .error e => some ⟨l, [], .error (.ledger e)⟩
    | .ok l => some (l.parseTxs raw.height raw.txs)

/-- Applies a block as a whole: a block that fails changes nothing. -/
def Ledger.apply (l : Ledger) (raw : RawBlock) : Ledger × Result ParseError Block :=
  match l.parse raw with
  | none => (l, .never)
  | some p =>
    let (l, result) := Ledger.settle (.ledger .noOpenBlock) l.chain.length p.ledger p.outcome
    (l, .ofExcept result)

/-- Applies blocks in order, whether they are accepted or not. -/
def Ledger.applyAll (l : Ledger) (raws : List RawBlock) : Ledger :=
  raws.foldl (fun l raw => (l.apply raw).1) l

def Store.apply {α : Type} (s : Store α) (raw : RawBlock) :
    Store α × Result ParseError (Committed α) :=
  s.commit (.ledger .noOpenBlock) fun l => (l.parse raw).map fun p => (p.ledger, p.outcome)

end DaoLedger
