import DaoLedger.Proofs.Agreement
/-!
A block and its removal. Main statement: whatever was offered to the tip since it was opened,
removing it gives back the blocks below it and all their indices.
-/
namespace DaoLedger

namespace Ledger
variable {l l' : Ledger}

/-- Offers transactions to the tip, one after the other; those refused change nothing. -/
def offer (l : Ledger) (txs : List Tx) : Ledger := l.writeAll (txs.map .addTx)

def accepted (l : Ledger) : List Tx → List Tx
  | [] => []
  | tx :: txs =>
    match l.addTx tx with
    | .ok l' => tx :: l'.accepted txs
    | .error _ => l.accepted txs

theorem offer_cons (l : Ledger) (tx : Tx) (txs : List Tx) :
    l.offer (tx :: txs) = (l.kept (l.addTx tx)).offer txs := rfl

theorem chain_offer {tip : Block} {older : List Block} (hc : l.chain = tip :: older)
    (txs : List Tx) :
    (l.offer txs).chain = { tip with txs := tip.txs ++ l.accepted txs } :: older := by
  induction txs generalizing l tip with
  | nil => simpa [offer, writeAll, accepted] using hc
  | cons tx txs ih =>
    rw [offer_cons, accepted]
    cases ha : l.addTx tx with
    | error e => exact ih hc
    | ok l' =>
      have hw : l' = l.written tx := (addTx_eq_ok.1 ha).2
      have hc' : l'.chain = { tip with txs := tip.txs ++ [tx] } :: older := by
        rw [hw, written, hc]
        rfl
      rw [kept, ih hc']
      simp

theorem Indexed.offer (h : l.Indexed) {txs : List Tx} (hn : ∀ tx ∈ txs, tx.Named) :
    (l.offer txs).Indexed := by
  refine h.writeAll fun tx ht => ?_
  obtain ⟨t, hm, ⟨⟩⟩ := List.mem_map.1 ht
  exact hn tx hm

theorem Indexed.removeTip_offer (h : l.Indexed) (raw : RawBlock) {offered : List Tx}
    (hn : ∀ tx ∈ offered, tx.Named) :
    ∃ l', ((l.opened raw).offer offered).removeTip =
        some ({ raw.opened with txs := (l.opened raw).accepted offered }, l') ∧
      l'.chain = l.chain ∧ l'.indices = l.indices := by
  have hchain : ((l.opened raw).offer offered).chain =
      { raw.opened with txs := (l.opened raw).accepted offered } :: l.chain :=
    chain_offer rfl offered
  obtain ⟨l', hr, hi, hc, -⟩ := removeTip_eq ((h.opened raw).offer hn) hchain
  exact ⟨l', hr, hc, h.indices_eq hi hc⟩

/-- The indices are all that the ledger keeps of stored transactions: where they are, their types and
burnt fees, the total, and which outputs are unspent, spent by whom and of which type. -/
theorem removeTip_of_offered (g : Genesis) (ws : List Write) (raw : RawBlock) (offered : List Tx)
    (hws : ∀ tx, .addTx tx ∈ ws → tx.Named) (hn : ∀ tx ∈ offered, tx.Named) :
    let l := (Ledger.new g).writeAll ws
    ∀ opened, l.start raw = .ok opened →
      ∃ l', (opened.offer offered).removeTip =
          some ({ raw.opened with txs := opened.accepted offered }, l') ∧
        l'.chain = l.chain ∧ l'.indices = l.indices := by
  intro l opened hs
  have hl : l.Indexed := (Indexed.new g).writeAll hws
  obtain ⟨-, -, rfl⟩ := start_eq_ok.1 hs
  exact hl.removeTip_offer raw hn

def sampleOffers : List Tx :=
  let payment : Tx := { Sample.payment.undefined with type := .payTradeFee, burntFee := 10 }
  let change : Tx :=
    { id := ⟨"c"⟩, blockHeight := 11, blockHash := ⟨"b"⟩, time := 0
      inputs := [Sample.input "p" 0, Sample.input "p" 0, Sample.input "x" 9, Sample.input "c" 0]
      outputs := [⟨Sample.output "c" 0 590, .bsqOutput⟩], type := .transferBsq, burntFee := 0 }
  [payment, change, payment, { payment with id := ⟨"q"⟩, blockHeight := 12, outputs := [] }]

theorem removeTip_sampleOffers :
    let l := (Ledger.new Sample.genesis).writeAll sampleWrites
    (∀ tx, .addTx tx ∈ sampleWrites → tx.Named) ∧ (∀ tx ∈ sampleOffers, tx.Named) ∧
      l.start Sample.second = .ok (l.opened Sample.second) ∧
      ((l.opened Sample.second).offer sampleOffers).spentInfo? ⟨⟨"p"⟩, 0⟩ =
        some ⟨11, ⟨"c"⟩, 0⟩ ∧
      ∃ b l', ((l.opened Sample.second).offer sampleOffers).removeTip = some (b, l') ∧
        b.txs.map Tx.id = [⟨"p"⟩, ⟨"c"⟩] ∧ l'.chain = l.chain ∧ l'.indices = l.indices := by
  intro l
  have hn : ∀ tx ∈ sampleOffers, tx.Named := by decide
  have hm : l.misfit? Sample.second = none := by decide +kernel
  have hs := start_eq_ok.2 ⟨hm, by decide +kernel, rfl⟩
  obtain ⟨l', hr, hc, hi⟩ :=
    removeTip_of_offered Sample.genesis sampleWrites Sample.second sampleOffers named_sampleWrites
      hn _ hs
  exact ⟨named_sampleWrites, hn, hs, by decide +kernel, _, l', hr, by decide +kernel, hc, hi⟩

end Ledger

end DaoLedger
