import DaoLedger.Governance.BlindVote
import DaoLedger.Proofs.Coherence
import DaoLedger.Proofs.Consumption
import DaoLedger.Proofs.Frames
/-!
Payloads as governance builds them and as classification reads them. Main statement: a transaction
with such a payload that does what the payload asks for gets the type and the event that the payload
was built for.
-/
namespace DaoLedger

/-! ### Built payloads -/

namespace OpReturn

theorem length_hashPayload (type : OpReturnType) (hash : Hash160) :
    (hashPayload type hash).length = hashPayloadLength := by
  simp [hashPayload, hashPayloadLength]

theorem length_voteReveal (hash : Hash160) (key : Vector UInt8 32) :
    (voteReveal hash key).length = voteRevealLength := by
  rw [voteReveal, List.length_append, length_hashPayload, Vector.length_toList]
  rfl

theorem ofFn_hashPayload (type : OpReturnType) (hash : Hash160) :
    (Vector.ofFn fun i : Fin 20 => (hashPayload type hash).getD (i.val + 2) 0) = hash := by
  ext i hi
  simp [hashPayload]

theorem lockup_eq (lockTime : UInt16) : ∃ high low : UInt8,
    lockup lockTime = [0x15, 1, high, low] ∧ 256 * high.toNat + low.toNat = lockTime.toNat := by
  obtain ⟨high, low, hbytes⟩ := List.length_eq_two.1 (Crypto.length_bytesBE 2 lockTime.toNat)
  have hvalue := Crypto.bigEndian_bytesBE 2 lockTime.toNat lockTime.toNat_lt
  rw [hbytes] at hvalue
  have hread : Crypto.bigEndian [high, low] = low.toNat + 256 * high.toNat := rfl
  refine ⟨high, low, by rw [lockup, hbytes]; rfl, ?_⟩
  omega

end OpReturn

namespace RawTx
variable {tx : RawTx}

theorem hasForm_hashPayload {type : OpReturnType} {hash : Hash160}
    (hp : tx.payload? = some (OpReturn.hashPayload type hash)) : tx.HasForm 22 type.byte :=
  ⟨_, hp, OpReturn.length_hashPayload type hash, rfl, rfl⟩

theorem hasForm_voteReveal {hash : Hash160} {key : Vector UInt8 32}
    (hp : tx.payload? = some (OpReturn.voteReveal hash key)) : tx.HasForm 54 0x13 :=
  ⟨_, hp, OpReturn.length_voteReveal hash key, rfl, rfl⟩

end RawTx

/-! ### Coloured outputs -/

/-- The output at a position is coloured BSQ. -/
def Tx.Colours (tx : Tx) (position : Nat) : Prop :=
  ∃ o, tx.outputs[position]? = some o ∧ o.type.isColoured

theorem OutputType.isColoured_of_isOpReturn {t : OutputType} (h : t.isOpReturn) :
    t.isColoured = false := by
  cases t <;> first | rfl | cases h

theorem OutputType.isColoured_plain (t : OutputType) : t.plain.isColoured = t.isColoured := by
  cases t <;> rfl

namespace Palette
variable (p : Palette)

theorem isColoured_paint (budget : Nat) (raws : List RawOutput) (i : Nat) (o : RawOutput) :
    (p.paint budget raws i o).isColoured ↔ o.payload = none ∧ Affords budget raws i o := by
  have hcovered : (p.covered i).isColoured := by
    unfold covered
    split <;> rfl
  have huncovered : ¬(p.uncovered i).isColoured := by
    unfold uncovered
    split <;> decide
  have hopReturn : ¬(p.opReturn i).isColoured := by
    unfold opReturn
    split <;> decide
  rw [paint, RawOutput.isOpReturn]
  cases o.payload with
  | some payload => simp [hopReturn]
  | none => by_cases ha : Affords budget raws i o <;> simp [ha, hcovered, huncovered]

end Palette

/-- Outputs are coloured where the budget covers them, whatever types they have besides. -/
def Budgeted (budget : Nat) (raws : List RawOutput) (outputs : List Output) : Prop :=
  ∃ dye, Dyed raws dye outputs ∧ ∀ (i : Nat) o, raws[i]? = some o →
    ((dye i o).isColoured ↔ o.payload = none ∧ Affords budget raws i o)

section
variable {budget : Nat} {raws : List RawOutput} {outputs : List Output}

theorem budgeted_colour (p : Palette) (budget : Nat) (raws : List RawOutput) :
    Budgeted budget raws (p.colour true budget 0 raws).outputs :=
  ⟨_, dyed_colour p budget raws, fun i o _ => p.isColoured_paint budget raws i o⟩

theorem Budgeted.plain (h : Budgeted budget raws outputs) :
    Budgeted budget raws (outputs.map Output.plain) := by
  obtain ⟨dye, hd, hiff⟩ := h
  refine ⟨_, hd.plain, fun i o ho => ?_⟩
  rw [OutputType.isColoured_plain, hiff i o ho]

/-- The output that carries the payload is never coloured. -/
theorem Budgeted.retype (h : Budgeted budget raws outputs) {candidate : Candidate}
    (hc : Candidate.firstFrom? 0 raws = some candidate) {type : OutputType}
    (ht : type.isColoured = false) : Budgeted budget raws (retype type outputs candidate.position) := by
  obtain ⟨dye, hd, hiff⟩ := h
  obtain ⟨j, q, hposition, hq, hpayload⟩ := Candidate.firstFrom?_eq_some hc
  rw [Nat.zero_add] at hposition
  refine ⟨_, hd.retype type candidate.position, fun i o ho => ?_⟩
  split
  · next hi =>
    rw [hi, hposition, hq, Option.some.injEq] at ho
    subst ho
    simp [ht, hpayload]
  · exact hiff i o ho

end

namespace Ledger
variable {l : Ledger} {tx : RawTx} {height : UInt32} {c : Classified}

theorem budgeted_classifySpending (l : Ledger) (tx : RawTx) :
    Budgeted (l.inputBudget tx.inputs) tx.outputs (l.classifySpending tx).tx.outputs := by
  unfold classifySpending
  cases hc : Candidate.firstFrom? 0 tx.outputs with
  | none => exact budgeted_colour _ _ _
  | some candidate =>
    have hcolour := budgeted_colour (.of (some candidate)) (l.inputBudget tx.inputs) tx.outputs
    dsimp only
    split
    · next v hv =>
      have hop := (Claimed.accepts_of_judge hv).outputType
      exact hcolour.retype hc (OutputType.isColoured_of_isOpReturn hop)
    · exact (hcolour.retype hc rfl).plain

theorem colours_classifySpending (i : Nat) :
    (l.classifySpending (tx.placed height)).tx.Colours i ↔ l.Pays tx i := by
  obtain ⟨dye, hd, hiff⟩ := l.budgeted_classifySpending (tx.placed height)
  have hraw : (tx.placed height).outputs[i]? =
      tx.outputs[i]?.map fun o => { o with blockHeight := height } := List.getElem?_map ..
  rw [Tx.Colours, hd i, hraw, Pays]
  cases ho : tx.outputs[i]? with
  | none => simp
  | some o =>
    rw [ho, Option.map_some] at hraw
    have hcolour : (dye i { o with blockHeight := height }).isColoured ↔
        o.payload = none ∧ Affords (l.inputBudget tx.inputs) tx.outputs i o :=
      (hiff i _ hraw).trans (and_congr_right fun _ => affords_placed)
    simpa using hcolour

theorem burns_classifySpending (l : Ledger) (tx : RawTx) (height : UInt32) :
    l.Burns tx (l.classifySpending (tx.placed height)).tx.burntFee := by
  unfold classifySpending
  cases Candidate.firstFrom? 0 (tx.placed height).outputs with
  | none => exact (l.coloured_placed tx height (.of none)).1
  | some candidate =>
    have hburns := (l.coloured_placed tx height (.of (some candidate))).1
    dsimp only
    split
    · exact hburns
    · exact hburns

/-! ### Types and events of built payloads -/

structure Recognised (l : Ledger) (tx : RawTx) (height : UInt32) (c : Classified) : Prop where
  proposal : ∀ p : Proposal, tx.payload? = some p.payload →
    c.tx.burntFee = l.paramValue .proposalFee height.toNat →
    l.phaseAt? height.toNat = some .proposal →
    (p.opReturnType = .compensationRequest →
      ∃ o, tx.outputs[1]? = some o ∧ o.payload = none ∧ ¬l.Pays tx 1) →
    c.tx.type = p.txType ∧ ∃ hash, p.matchesHash hash ∧
      c.event = some (.proposal ⟨tx.id, height, p.opReturnType, hash⟩)
  blindVote : ∀ b : BlindVote, tx.payload? = some b.payload →
    c.tx.burntFee = l.paramValue .blindVoteFee height.toNat → c.tx.Colours 0 →
    l.phaseAt? height.toNat = some .blindVote →
    c.tx.type = .blindVote ∧ ∃ o, tx.outputs[0]? = some o ∧
      c.event = some (.blindVote ⟨tx.id, height, b.hash, o.amount⟩)
  voteReveal : ∀ hash key, tx.payload? = some (OpReturn.voteReveal hash key) →
    (∃ input o, tx.inputs.head? = some input ∧ l.unspent? input.source = some o ∧
      o.type = .blindVoteLockStake) →
    l.phaseAt? height.toNat = some .voteReveal → c.tx.type = .voteReveal
  lockup : ∀ lockTime, tx.payload? = some (OpReturn.lockup lockTime) → c.tx.Colours 0 →
    (c.tx.type = .lockup ↔ l.paramValue .lockTimeMin height.toNat ≤ lockTime.toNat ∧
      lockTime.toNat ≤ l.paramValue .lockTimeMax height.toNat)

end Ledger

theorem Proposal.txType_ne_invalid (p : Proposal) : p.txType ≠ .invalid := by
  unfold txType
  split <;> decide

theorem Event.proposal?_eq_some {event : Event} {e : ProposalEvent} :
    event.proposal? = some e ↔ event = .proposal e := by
  cases event <;> simp [proposal?]

theorem Event.blindVote?_eq_some {event : Event} {e : BlindVoteEvent} :
    event.blindVote? = some e ↔ event = .blindVote e := by
  cases event <;> simp [blindVote?]

namespace Tx
variable {tx : Tx}

theorem payloadHash_eq {type : OpReturnType} {hash : Hash160}
    (hp : tx.raw.payload? = some (OpReturn.hashPayload type hash)) : tx.payloadHash = hash := by
  rw [payloadHash, hp]
  exact OpReturn.ofFn_hashPayload type hash

theorem proposalEvent?_eq {p : Proposal} (ht : tx.type = p.txType) :
    tx.proposalEvent? = some ⟨tx.id, tx.blockHeight, p.opReturnType, tx.payloadHash⟩ := by
  unfold Proposal.txType at ht
  unfold proposalEvent? Proposal.opReturnType
  cases hk : p.kind <;> simp only [hk] at ht <;> simp only [ht]

end Tx

namespace Classified.Announced
variable {c : Classified}

theorem event_proposal (h : c.Announced) {p : Proposal} (ht : c.tx.type = p.txType)
    (hp : c.tx.raw.payload? = some p.payload) :
    c.event = some (.proposal ⟨c.tx.id, c.tx.blockHeight, p.opReturnType, p.hash⟩) := by
  have hevent := h.proposal
  rw [Tx.proposalEvent?_eq ht, Tx.payloadHash_eq hp, Option.bind_eq_some_iff] at hevent
  obtain ⟨event, he, hproposal⟩ := hevent
  rw [he, Event.proposal?_eq_some.1 hproposal]

theorem event_blindVote (h : c.Announced) {b : BlindVote} (ht : c.tx.type = .blindVote)
    (hp : c.tx.raw.payload? = some b.payload) :
    c.event = some (.blindVote ⟨c.tx.id, c.tx.blockHeight, b.hash,
      (c.tx.outputs[0]?.map (·.amount)).getD 0⟩) := by
  have hevent := h.blindVote
  simp only [Tx.blindVoteEvent?, ht] at hevent
  rw [Tx.payloadHash_eq hp, Option.bind_eq_some_iff] at hevent
  obtain ⟨event, he, hvote⟩ := hevent
  rw [he, Event.blindVote?_eq_some.1 hvote]

end Classified.Announced

namespace Ledger
variable {l : Ledger} {tx : RawTx} {height : UInt32} {c : Classified}

theorem admits_proposal {p : Proposal} (hp : tx.payload? = some p.payload)
    (hfee : l.Burns tx (l.paramValue .proposalFee height.toNat))
    (hphase : l.phaseAt? height.toNat = some .proposal)
    (hcandidate : p.opReturnType = .compensationRequest →
      ∃ o, tx.outputs[1]? = some o ∧ o.payload = none ∧ ¬l.Pays tx 1) :
    l.Admits tx height p.txType := by
  have hform : tx.HasForm 22 p.opReturnType.byte := RawTx.hasForm_hashPayload hp
  unfold Proposal.txType
  unfold Proposal.opReturnType at hform hcandidate
  cases hk : p.kind with
  | generic =>
    rw [hk] at hform
    exact ⟨hform, hfee, hphase⟩
  | compensationRequest requested address =>
    rw [hk] at hform hcandidate
    exact ⟨⟨hform, hfee, hphase⟩, hcandidate rfl⟩
  | changeParam param value =>
    rw [hk] at hform
    exact ⟨hform, hfee, hphase⟩

theorem admits_lockup {lockTime : UInt16} (hp : tx.payload? = some (OpReturn.lockup lockTime))
    (hpays : l.Pays tx 0) :
    l.Admits tx height .lockup ↔ l.paramValue .lockTimeMin height.toNat ≤ lockTime.toNat ∧
      lockTime.toNat ≤ l.paramValue .lockTimeMax height.toNat := by
  obtain ⟨high, low, hbytes, hvalue⟩ := OpReturn.lockup_eq lockTime
  rw [← hvalue]
  constructor
  · rintro ⟨-, high', low', hp', hrange⟩
    rw [hp, hbytes, Option.some.injEq] at hp'
    cases hp'
    exact hrange
  · exact fun hrange => ⟨hpays, high, low, hp.trans (congrArg some hbytes), hrange⟩

end Ledger

/-- What governance builds is recognised in every transaction but one that names itself the genesis
transaction. -/
theorem Ledger.recognised_of_built (l : Ledger) (tx : RawTx) (height : UInt32)
    (hg : ¬l.genesis.names tx) (hb : l.hasBsqInput tx.inputs) :
    ∃ c, l.classify tx height = .ok c ∧ l.Recognised tx height c := by
  have hc : l.classify tx height = .ok (l.classifySpending (tx.placed height)) :=
    classify_eq_ok.2 (.inr (.inl ⟨hg, hb, rfl⟩))
  refine ⟨_, hc, ?_⟩
  have hannounced := announced_classify hc
  have hraw := (l.spends_classifySpending (tx.placed height)).raw
  have hburns := l.burns_classifySpending tx height
  have hcolours (i : Nat) := @colours_classifySpending l tx height i
  have htype (type : TxType) (hne : type ≠ .invalid) := @type_classifySpending l tx height type hne
  generalize l.classifySpending (tx.placed height) = c at *
  have hid : c.tx.id = tx.id := congrArg RawTx.id hraw
  have hheight : c.tx.blockHeight = height := congrArg RawTx.blockHeight hraw
  have hpayload : c.tx.raw.payload? = tx.payload? := by rw [hraw, RawTx.payload?_placed]
  constructor
  · intro p hp hfee hphase hcandidate
    have hadmits := admits_proposal hp (hfee ▸ hburns) hphase hcandidate
    have ht : c.tx.type = p.txType := (htype _ p.txType_ne_invalid).2 hadmits
    have hevent := hannounced.event_proposal ht (hpayload.trans hp)
    rw [hid, hheight] at hevent
    exact ⟨ht, p.hash, decide_eq_true rfl, hevent⟩
  · intro b hp hfee hcolour hphase
    obtain ⟨o, ho, hplain⟩ := (hcolours 0).1 hcolour
    have hform : tx.HasForm 22 0x12 := RawTx.hasForm_hashPayload hp
    have ht : c.tx.type = .blindVote :=
      (htype _ (by decide)).2 ⟨hform, hfee ▸ hburns, ⟨o, ho, hplain⟩, hphase⟩
    have hstake : c.tx.outputs[0]?.map (·.amount) = some o.amount := by
      have hfirst := congrArg (fun raw : RawTx => raw.outputs[0]?.map RawOutput.amount) hraw
      simp only [Tx.raw, RawTx.placed, List.getElem?_map, ho, Option.map_map] at hfirst
      exact hfirst
    have hevent := hannounced.event_blindVote ht (hpayload.trans hp)
    rw [hid, hheight, hstake] at hevent
    exact ⟨ht, o, ho, hevent⟩
  · intro hash key hp hstake hphase
    exact (htype .voteReveal (by decide)).2 ⟨RawTx.hasForm_voteReveal hp, hstake, hphase⟩
  · intro lockTime hp hcolour
    rw [htype .lockup (by decide), admits_lockup hp ((hcolours 0).1 hcolour)]

theorem Ledger.recognised_bond :
    let l := (Ledger.new Sample.genesis).applyAll [Sample.first]
    let tx : RawTx := ⟨⟨"k"⟩, 11, ⟨"b"⟩, 0, [Sample.input "g" 0], [Sample.output "k" 0 600,
      { Sample.output "k" 1 0 with payload := some (OpReturn.lockup 144) }]⟩
    ¬l.genesis.names tx ∧ l.hasBsqInput tx.inputs ∧
      ∃ c, l.classify tx 11 = .ok c ∧ c.tx.Colours 0 ∧ c.tx.type = .lockup := by
  intro l tx
  have hg : ¬l.genesis.names tx := by decide +kernel
  have hb : l.hasBsqInput tx.inputs := by decide +kernel
  obtain ⟨c, hc, hr⟩ := Ledger.recognised_of_built l tx 11 hg hb
  have hfirst : (l.classify tx 11).map (fun c => c.tx.outputs[0]?.any (·.type.isColoured)) =
      .ok true := by decide +kernel
  rw [hc] at hfirst
  have hcolour : c.tx.Colours 0 := (Option.any_eq_true _ _).1 (Except.ok.inj hfirst)
  exact ⟨hg, hb, c, hc, hcolour, (hr.lockup 144 rfl hcolour).2 (by decide +kernel)⟩

/-- A transaction that names itself the genesis transaction is that, whatever it carries. -/
theorem Ledger.named_genesis_is_not_recognised :
    ¬∀ (g : Genesis) (raws : List RawBlock) (tx : RawTx) (height : UInt32),
      let l := (Ledger.new g).applyAll raws
      l.hasBsqInput tx.inputs → ∃ c, l.classify tx height = .ok c ∧ l.Recognised tx height c := by
  intro h
  let l := (Ledger.new Sample.genesis).applyAll [Sample.first, Sample.voting]
  let payload := OpReturn.voteReveal (.replicate 20 0) (.replicate 32 0)
  let tx : RawTx := ⟨⟨"g"⟩, 10, ⟨"c"⟩, 0, [Sample.input "v" 0], [Sample.output "g" 0 1000,
    { Sample.output "g" 1 0 with payload := some payload }]⟩
  obtain ⟨c, hc, hr⟩ := h Sample.genesis [Sample.first, Sample.voting] tx 4370 (by decide +kernel)
  have htype : (l.classify tx 4370).map (·.tx.type) = .ok .genesis := by decide +kernel
  let stake : Output := ⟨{ Sample.output "v" 0 400 with blockHeight := 3760 }, .blindVoteLockStake⟩
  have hstake : l.unspent? ⟨⟨"v"⟩, 0⟩ = some stake := by decide +kernel
  have hreveal := hr.voteReveal _ _ rfl ⟨_, stake, rfl, hstake, rfl⟩ (by decide +kernel)
  rw [hc, Except.map, hreveal] at htype
  cases htype

end DaoLedger
