import DaoLedger.Proofs.Applying
import DaoLedger.Proofs.Grammar
/-!
How the types of a transaction, of its outputs and of its event fit together. Main statement: after
any run the outputs of every stored transaction have just the types that the type of the transaction
calls for, and the governance events are those of the stored transactions, in their order.
-/
namespace DaoLedger

/-- The output that a payload asks for besides its own, by position and type. -/
def OpReturnType.role? : OpReturnType → Option (Nat × OutputType)
  | .blindVote => some (0, .blindVoteLockStake)
  | .lockup => some (0, .bondLock)
  | .compensationRequest => some (1, .issuanceCandidate)
  | _ => none

/-- The types of the outputs are those that the type of the transaction calls for. -/
structure Tx.Coherent (tx : Tx) : Prop where
  defined : ∀ o ∈ tx.outputs, o.type ≠ .undefined
  genesis : tx.type = .genesis → ∀ o ∈ tx.outputs, o.type = .genesisOutput
  accepted : ∀ t : OpReturnType, tx.type = t.txType →
    ∃ (i : Nat) (o : Output), tx.outputs[i]? = some o ∧ o.payload.isSome ∧
      o.type = t.outputType ∧
        ∀ (j : Nat) (q : Output), tx.outputs[j]? = some q → j ≠ i →
          q.type.isOpReturn = false ∧ (q.payload.isSome → i < j ∧ q.type = .invalidOutput)
  /-- Outputs with a role stand in their place in transactions of their type, and nowhere else. -/
  roles : ∀ (t : OpReturnType) place role, t.role? = some (place, role) →
    ∀ i, tx.outputs[i]?.map (·.type) = some role ↔ i = place ∧ tx.type = t.txType
  plain : tx.type = .invalid ∨ tx.type = .transferBsq ∨ tx.type = .payTradeFee →
    ∀ o ∈ tx.outputs, o.type = .bsqOutput ∨ o.type = .btcOutput ∨
      tx.type = .invalid ∧ o.type = .invalidOutput

/-! ### Roles -/

section
variable {t t' : OpReturnType} {i j : Nat} {role : OutputType}

theorem OpReturnType.role?_unique (h : t.role? = some (i, role)) (h' : t'.role? = some (j, role)) :
    t = t' ∧ i = j := by
  cases t <;> cases h <;> cases t' <;> cases h' <;> exact ⟨rfl, rfl⟩

theorem OpReturnType.txType_inj (h : t.txType = t'.txType) : t = t' := by
  cases t <;> cases t' <;> simp_all [txType]

theorem OpReturnType.isOpReturn_role (h : t.role? = some (i, role)) : role.isOpReturn = false := by
  cases t <;> cases h <;> rfl

theorem OpReturnType.plain_role (h : t.role? = some (i, role)) :
    role.plain = .bsqOutput ∨ role.plain = .btcOutput := by
  cases t <;> cases h <;> simp [OutputType.plain]

theorem OpReturnType.role_ne_plain (h : t.role? = some (i, role)) (type : OutputType) :
    type.plain ≠ role := by
  cases t <;> cases h <;> cases type <;> decide

theorem Claimed.hasOutput_of_meets {c : Claimed} {l : Ledger} (hm : c.Meets l t)
    (h : t.role? = some (i, role)) : c.hasOutput i role := by
  cases t with
  | compensationRequest => cases h; exact hm.2
  | blindVote => cases h; exact hm.2.2.1
  | lockup => cases h; exact hm.2.1
  | _ => cases h

end

/-! ### Outputs by position -/

def Dyed (raws : List RawOutput) (dye : Nat → RawOutput → OutputType) (outputs : List Output) :
    Prop :=
  ∀ i : Nat, outputs[i]? = raws[i]?.map fun o => ⟨o, dye i o⟩

section
variable {raws : List RawOutput} {dye : Nat → RawOutput → OutputType} {outputs : List Output}

theorem Dyed.exists_of_mem (h : Dyed raws dye outputs) {o : Output} (ho : o ∈ outputs) :
    ∃ i raw, raws[i]? = some raw ∧ o = ⟨raw, dye i raw⟩ := by
  obtain ⟨i, hi⟩ := List.mem_iff_getElem?.1 ho
  rw [h i] at hi
  obtain ⟨raw, hraw, rfl⟩ := Option.map_eq_some_iff.1 hi
  exact ⟨i, raw, hraw, rfl⟩

theorem Dyed.retype (h : Dyed raws dye outputs) (type : OutputType) (position : Nat) :
    Dyed raws (fun i o => if i = position then type else dye i o)
      (retype type outputs position) := by
  intro i
  rw [DaoLedger.retype, List.getElem?_modify, h i]
  cases raws[i]? with
  | none => rfl
  | some o =>
    by_cases hi : position = i
    · subst hi
      simp
    · simp [hi, Ne.symm hi]

theorem Dyed.plain (h : Dyed raws dye outputs) :
    Dyed raws (fun i o => (dye i o).plain) (outputs.map Output.plain) := by
  intro i
  rw [List.getElem?_map, h i]
  cases raws[i]? <;> rfl

theorem dyed_colour (p : Palette) (budget : Nat) (raws : List RawOutput) :
    Dyed raws (p.paint budget raws) (p.colour true budget 0 raws).outputs := by
  intro i
  have hraw := congrArg (·[i]?) (p.raw_colour true budget 0 raws)
  have htype := p.type?_colour_true budget raws i
  simp only [List.getElem?_map] at hraw
  cases ho : (p.colour true budget 0 raws).outputs[i]? with
  | none =>
    rw [ho] at hraw
    rw [← hraw]
    rfl
  | some o =>
    rw [ho, Option.map_some] at hraw htype
    rw [← hraw, Option.map_some, Option.some.injEq] at htype ⊢
    rw [← htype]

end

namespace Palette
variable (p : Palette)

theorem covered_cases (i : Nat) :
    p.covered i = .bsqOutput ∨ ∃ t, p.type? = some t ∧ t.role? = some (i, p.covered i) := by
  unfold covered
  split
  · next ht => exact .inr ⟨_, ht, rfl⟩
  · next ht => exact .inr ⟨_, ht, rfl⟩
  · exact .inl rfl

theorem uncovered_cases (i : Nat) :
    p.uncovered i = .btcOutput ∨ ∃ t, p.type? = some t ∧ t.role? = some (i, p.uncovered i) := by
  unfold uncovered
  split
  · next ht => exact .inr ⟨_, ht, rfl⟩
  · exact .inl rfl

theorem paint_of_isOpReturn {o : RawOutput} (ho : o.isOpReturn) (budget : Nat)
    (raws : List RawOutput) (i : Nat) : p.paint budget raws i o = p.opReturn i := if_pos ho

theorem paint_cases {o : RawOutput} (ho : ¬o.isOpReturn) (budget : Nat) (raws : List RawOutput)
    (i : Nat) :
    p.paint budget raws i o = .bsqOutput ∨ p.paint budget raws i o = .btcOutput ∨
      ∃ t, p.type? = some t ∧ t.role? = some (i, p.paint budget raws i o) := by
  rw [paint, if_neg ho]
  split
  · exact (p.covered_cases i).imp_right .inr
  · exact .inr (p.uncovered_cases i)

theorem opReturn_of_ne {candidate : Candidate} {i : Nat} (hi : i ≠ candidate.position) :
    (Palette.of (some candidate)).opReturn i = .invalidOutput :=
  if_neg fun h => hi (Option.some.inj h).symm

end Palette

/-! ### The first OP_RETURN output -/

theorem Candidate.before_firstFrom? {i : Nat} {outputs : List RawOutput} {c : Candidate}
    (h : firstFrom? i outputs = some c) {j : Nat} {o : RawOutput} (ho : outputs[j]? = some o)
    (hj : i + j < c.position) : o.payload = none := by
  induction outputs generalizing i j with
  | nil => cases ho
  | cons q outputs ih =>
    unfold firstFrom? at h
    split at h
    · cases h
      exact absurd hj (Nat.not_lt.2 (Nat.le_add_right i j))
    · next hq =>
      cases j with
      | zero =>
        cases ho
        exact hq
      | succ j => exact ih h (by simpa using ho) (by omega)

theorem Candidate.payload_of_firstFrom?_none {outputs : List RawOutput}
    (h : firstFrom? 0 outputs = none) {o : RawOutput} (ho : o ∈ outputs) : o.payload = none := by
  have hnone := payload_firstFrom? 0 outputs
  rw [h, Option.map_none] at hnone
  exact List.findSome?_eq_none_iff.1 hnone.symm o ho

/-! ### Classified transactions -/

theorem coherent_genesis (tx : RawTx) : tx.genesis.Coherent := by
  have hgenesis : ∀ o ∈ tx.genesis.outputs, o.type = .genesisOutput := by
    intro o ho
    obtain ⟨raw, -, rfl⟩ := List.mem_map.1 ho
    rfl
  exact {
    defined := fun o ho => by rw [hgenesis o ho]; decide
    genesis := fun _ => hgenesis
    accepted := fun t ht => by cases t <;> cases ht
    roles := fun t place role ht i => by
      refine iff_of_false (fun hi => ?_) fun h => by cases t <;> cases h.2
      obtain ⟨o, ho, hrole⟩ := Option.map_eq_some_iff.1 hi
      rw [hgenesis o (List.mem_of_getElem? ho)] at hrole
      cases t <;> cases ht <;> cases hrole
    plain := fun ht => by obtain ht | ht | ht := ht <;> cases ht }

theorem coherent_of_plain {tx : Tx}
    (ht : tx.type = .invalid ∨ tx.type = .transferBsq ∨ tx.type = .payTradeFee)
    (hp : ∀ o ∈ tx.outputs, o.type = .bsqOutput ∨ o.type = .btcOutput ∨
      tx.type = .invalid ∧ o.type = .invalidOutput) : tx.Coherent := by
  have hne (t : OpReturnType) : tx.type ≠ t.txType := by
    intro h
    rw [h] at ht
    cases t <;> simp [OpReturnType.txType] at ht
  exact {
    defined := fun o ho h => by have := hp o ho; simp [h] at this
    genesis := fun hg => by simp [hg] at ht
    accepted := fun t h => absurd h (hne t)
    roles := fun t place role hr i => by
      refine iff_of_false (fun hi => ?_) fun h => hne t h.2
      obtain ⟨o, ho, hrole⟩ := Option.map_eq_some_iff.1 hi
      have hplain := hp o (List.mem_of_getElem? ho)
      rw [hrole] at hplain
      cases t <;> cases hr <;> simp at hplain
    plain := fun _ => hp }

section
variable {tx : RawTx} {candidate : Candidate} {budget fee : Nat}

theorem coherent_refused {outputs : List Output}
    (hd : Dyed tx.outputs ((Palette.of (some candidate)).paint budget tx.outputs) outputs) :
    (tx.decided ((retype .invalidOutput outputs candidate.position).map Output.plain) .invalid
      fee).Coherent := by
  refine coherent_of_plain (.inl rfl) fun o ho => ?_
  obtain ⟨i, raw, hraw, rfl⟩ := (hd.retype .invalidOutput candidate.position).plain.exists_of_mem ho
  dsimp only
  by_cases hi : i = candidate.position
  · rw [if_pos hi]
    exact .inr (.inr ⟨rfl, rfl⟩)
  · rw [if_neg hi]
    by_cases hop : raw.isOpReturn
    · rw [Palette.paint_of_isOpReturn _ hop, Palette.opReturn_of_ne hi]
      exact .inr (.inr ⟨rfl, rfl⟩)
    · obtain h | h | ⟨t, -, h⟩ := (Palette.of (some candidate)).paint_cases hop budget tx.outputs i
      · rw [h]
        exact .inl rfl
      · rw [h]
        exact .inr (.inl rfl)
      · exact (OpReturnType.plain_role h).imp_right .inl

end

/-- What the outputs of a transaction can be whose payload at `position` was accepted. -/
inductive Shade (t : OpReturnType) (position i : Nat) (o : Output) : Prop where
  | own (hi : i = position) (h : o.type = t.outputType)
  | invalid (hi : position < i) (h : o.type = .invalidOutput)
  | plain (hp : o.payload = none) (h : o.type = .bsqOutput ∨ o.type = .btcOutput)
  | role (hp : o.payload = none) (h : t.role? = some (i, o.type))

theorem coherent_of_shades {tx : Tx} {t : OpReturnType} {position : Nat} (ht : tx.type = t.txType)
    (hs : ∀ (i : Nat) (o : Output), tx.outputs[i]? = some o → Shade t position i o)
    (hown : ∃ o, tx.outputs[position]? = some o ∧ o.payload.isSome ∧ o.type = t.outputType)
    (hrole : ∀ place role, t.role? = some (place, role) →
      tx.outputs[place]?.map (·.type) = some role) : tx.Coherent where
  defined o ho := by
    obtain ⟨i, hi⟩ := List.mem_iff_getElem?.1 ho
    cases hs i o hi with
    | own _ h => rw [h]; cases t <;> decide
    | invalid _ h => rw [h]; decide
    | plain _ h => obtain h | h := h <;> rw [h] <;> decide
    | role _ h => exact (OpReturnType.role_ne_plain h .undefined).symm
  genesis hg := by
    rw [ht] at hg
    cases t <;> cases hg
  accepted t' ht' := by
    obtain rfl := OpReturnType.txType_inj (ht.symm.trans ht')
    obtain ⟨o, ho, hp, htype⟩ := hown
    refine ⟨position, o, ho, hp, htype, fun j q hq hj => ?_⟩
    cases hs j q hq with
    | own hi _ => exact absurd hi hj
    | invalid hi h => exact ⟨by rw [h]; rfl, fun _ => ⟨hi, h⟩⟩
    | plain hp h => exact ⟨by obtain h | h := h <;> rw [h] <;> rfl, by simp [hp]⟩
    | role hp h => exact ⟨OpReturnType.isOpReturn_role h, by simp [hp]⟩
  roles t' place role hr i := by
    constructor
    · intro hi
      obtain ⟨o, ho, rfl⟩ := Option.map_eq_some_iff.1 hi
      have hne := OpReturnType.role_ne_plain hr
      cases hs i o ho with
      | own _ h =>
        have hno := OpReturnType.isOpReturn_role hr
        rw [h] at hno
        cases t <;> cases hno
      | invalid _ h => exact absurd h.symm (hne .invalidOutput)
      | plain _ h =>
        obtain h | h := h
        · exact absurd h.symm (hne .bsqOutput)
        · exact absurd h.symm (hne .btcOutput)
      | role _ h =>
        obtain ⟨rfl, rfl⟩ := OpReturnType.role?_unique h hr
        exact ⟨rfl, ht⟩
    · intro h
      obtain ⟨rfl, ht'⟩ := h
      obtain rfl := OpReturnType.txType_inj (ht.symm.trans ht')
      exact hrole i role hr
  plain hp := by
    rw [ht] at hp
    cases t <;> simp [OpReturnType.txType] at hp

section
variable {tx : RawTx} {candidate : Candidate} {budget fee : Nat} {outputs : List Output}

theorem shade_paint {t : OpReturnType} {raw : RawOutput} {i : Nat}
    (hc : Candidate.firstFrom? 0 tx.outputs = some candidate) (ht : candidate.type? = some t)
    (hraw : tx.outputs[i]? = some raw) (hi : i ≠ candidate.position) :
    Shade t candidate.position i
      ⟨raw, (Palette.of (some candidate)).paint budget tx.outputs i raw⟩ := by
  by_cases hop : raw.isOpReturn
  · have hafter : candidate.position < i := by
      apply Nat.lt_of_le_of_ne (Nat.le_of_not_lt fun hlt => ?_) (Ne.symm hi)
      have hnone := Candidate.before_firstFrom? hc hraw (by omega)
      simp [RawOutput.isOpReturn, hnone] at hop
    exact .invalid hafter ((Palette.paint_of_isOpReturn _ hop ..).trans (Palette.opReturn_of_ne hi))
  · have hnone : raw.payload = none := by simpa [RawOutput.isOpReturn] using hop
    obtain h | h | ⟨t', ht', h⟩ := (Palette.of (some candidate)).paint_cases hop budget tx.outputs i
    · exact .plain hnone (.inl h)
    · exact .plain hnone (.inr h)
    · obtain rfl : t = t' := Option.some.inj (ht.symm.trans ht')
      exact .role hnone h

theorem coherent_accepted {t : OpReturnType}
    (hc : Candidate.firstFrom? 0 tx.outputs = some candidate) (ht : candidate.type? = some t)
    (hd : Dyed tx.outputs ((Palette.of (some candidate)).paint budget tx.outputs) outputs)
    (hrole : ∀ place role, t.role? = some (place, role) →
      outputs[place]?.map (·.type) = some role) :
    (tx.decided (retype t.outputType outputs candidate.position) t.txType fee).Coherent := by
  obtain ⟨position, raw, hposition, hraw, hpayload⟩ := Candidate.firstFrom?_eq_some hc
  rw [Nat.zero_add] at hposition
  subst hposition
  have hd' := hd.retype t.outputType candidate.position
  have hshade (i : Nat) (o : Output)
      (ho : (retype t.outputType outputs candidate.position)[i]? = some o) :
      Shade t candidate.position i o := by
    rw [hd' i] at ho
    obtain ⟨q, hq, rfl⟩ := Option.map_eq_some_iff.1 ho
    by_cases hi : i = candidate.position
    · exact .own hi (if_pos hi)
    · dsimp only
      rw [if_neg hi]
      exact shade_paint hc ht hq hi
  have hown : ∃ o, (retype t.outputType outputs candidate.position)[candidate.position]? = some o ∧
      o.payload.isSome ∧ o.type = t.outputType := by
    refine ⟨⟨raw, t.outputType⟩, ?_, by rw [hpayload]; rfl, rfl⟩
    rw [hd', hraw, Option.map_some]
    dsimp only
    rw [if_pos rfl]
  have hkept place role (hr : t.role? = some (place, role)) :
      (retype t.outputType outputs candidate.position)[place]?.map (·.type) = some role := by
    have hplace : place ≠ candidate.position := by
      intro he
      -- Before its payload is judged the candidate has no type.
      have hop : raw.isOpReturn := by rw [RawOutput.isOpReturn, hpayload]; rfl
      have hundefined : (Palette.of (some candidate)).opReturn candidate.position = .undefined :=
        if_pos rfl
      have hown := hrole place role hr
      rw [he, hd, hraw, Option.map_some, Option.map_some, Palette.paint_of_isOpReturn _ hop,
        hundefined] at hown
      exact OpReturnType.role_ne_plain hr .undefined (Option.some.inj hown)
    rw [retype, List.getElem?_modify_ne _ _ hplace.symm]
    exact hrole place role hr
  exact coherent_of_shades rfl hshade hown hkept

theorem coherent_uncommitted (hc : Candidate.firstFrom? 0 tx.outputs = none)
    (hd : Dyed tx.outputs ((Palette.of none).paint budget tx.outputs) outputs) {type : TxType}
    (ht : type = .transferBsq ∨ type = .payTradeFee) : (tx.decided outputs type fee).Coherent := by
  refine coherent_of_plain (.inr ht) fun o ho => ?_
  obtain ⟨i, raw, hraw, rfl⟩ := hd.exists_of_mem ho
  have hnone := Candidate.payload_of_firstFrom?_none hc (List.mem_of_getElem? hraw)
  have hop : ¬raw.isOpReturn := by simp [RawOutput.isOpReturn, hnone]
  obtain h | h | ⟨t, ht, -⟩ := (Palette.of none).paint_cases hop budget tx.outputs i
  · exact .inl h
  · exact .inr (.inl h)
  · cases ht

end

theorem Ledger.coherent_classifySpending (l : Ledger) (tx : RawTx) :
    (l.classifySpending tx).tx.Coherent := by
  unfold classifySpending
  cases hc : Candidate.firstFrom? 0 tx.outputs with
  | none =>
    refine coherent_uncommitted hc (dyed_colour (.of none) (l.inputBudget tx.inputs) tx.outputs) ?_
    split
    · exact .inl rfl
    · exact .inr rfl
  | some candidate =>
    have hd := dyed_colour (.of (some candidate)) (l.inputBudget tx.inputs) tx.outputs
    dsimp only
    split
    · next v hv =>
      obtain ⟨t, ht, -, hmeets, rfl⟩ := Claimed.judge_eq_ok.1 hv
      refine coherent_accepted hc ht hd fun place role hr => ?_
      have hout := Claimed.hasOutput_of_meets hmeets hr
      rw [Claimed.hasOutput, Option.any_eq_true] at hout
      obtain ⟨o, ho, hrole⟩ := hout
      rw [ho, Option.map_some, of_decide_eq_true hrole]
    · next rejection hr => exact coherent_refused hd

theorem Ledger.coherent_classify {l : Ledger} {tx : RawTx} {height : UInt32} {c : Classified}
    (h : l.classify tx height = .ok c) (hb : c.isBsq) : c.tx.Coherent := by
  obtain ⟨-, -, rfl⟩ | ⟨-, -, rfl⟩ | ⟨-, -, rfl⟩ := classify_eq_ok.1 h
  · exact coherent_genesis tx
  · exact l.coherent_classifySpending _
  · exact absurd hb (by simp [Classified.isBsq, RawTx.undefined])

/-! ### Events -/

def Tx.payloadHash (tx : Tx) : Hash160 :=
  Vector.ofFn fun i => (tx.raw.payload?.getD []).getD (i.val + 2) 0

def Tx.proposalEvent? (tx : Tx) : Option ProposalEvent :=
  match tx.type with
  | .proposal => some ⟨tx.id, tx.blockHeight, .proposal, tx.payloadHash⟩
  | .compensationRequest => some ⟨tx.id, tx.blockHeight, .compensationRequest, tx.payloadHash⟩
  | .changeParam => some ⟨tx.id, tx.blockHeight, .changeParam, tx.payloadHash⟩
  | _ => none

def Tx.blindVoteEvent? (tx : Tx) : Option BlindVoteEvent :=
  match tx.type with
  | .blindVote =>
    some ⟨tx.id, tx.blockHeight, tx.payloadHash, (tx.outputs[0]?.map (·.amount)).getD 0⟩
  | _ => none

/-- The event that goes with a transaction is the one that can be told from it. -/
structure Classified.Announced (c : Classified) : Prop where
  proposal : c.event.bind Event.proposal? = c.tx.proposalEvent?
  blindVote : c.event.bind Event.blindVote? = c.tx.blindVoteEvent?

theorem amount_of_raw {outputs outputs' : List Output}
    (h : outputs.map Output.toRawOutput = outputs'.map Output.toRawOutput) (i : Nat) :
    outputs[i]?.map (·.amount) = outputs'[i]?.map (·.amount) := by
  have hi := congrArg (fun raws => raws[i]?.map RawOutput.amount) h
  simpa only [List.getElem?_map, Option.map_map, Function.comp_def] using hi

theorem announced_of_verdict {claimed : Claimed} {tx : Tx} {t : OpReturnType}
    (ht : tx.type = t.txType) (hid : tx.id = claimed.txId) (hh : tx.blockHeight = claimed.height)
    (hp : tx.raw.payload? = some claimed.payload)
    (ha : tx.outputs[0]?.map (·.amount) = claimed.outputs[0]?.map (·.amount))
    (rejection : Option Rejection) : Classified.Announced ⟨tx, claimed.event? t, rejection⟩ := by
  have hhash : tx.payloadHash = claimed.hash := by rw [Tx.payloadHash, hp]; rfl
  constructor
  · cases t <;> simp [Tx.proposalEvent?, ht, OpReturnType.txType, Claimed.event?, hid, hh, hhash,
      Event.proposal?]
  · cases t <;> simp [Tx.blindVoteEvent?, ht, OpReturnType.txType, Claimed.event?, hid, hh, hhash,
      ha, Event.blindVote?]

theorem filterMap_toList {α β γ : Type} {o : Option α} {a : γ} {f : α → Option β}
    {g : γ → Option β} (h : o.bind f = g a) : o.toList.filterMap f = [a].filterMap g := by
  cases o with
  | none => simp [← h]
  | some e => simp [List.filterMap_cons, ← h]

namespace Ledger

theorem announced_classifySpending (l : Ledger) (tx : RawTx) :
    (l.classifySpending tx).Announced := by
  have hraw := (l.spends_classifySpending tx).raw
  have hpayload := Candidate.payload_firstFrom? 0 tx.outputs
  unfold classifySpending at hraw ⊢
  cases hc : Candidate.firstFrom? 0 tx.outputs with
  | none =>
    dsimp only
    split
    · exact ⟨rfl, rfl⟩
    · exact ⟨rfl, rfl⟩
  | some candidate =>
    rw [hc] at hraw hpayload
    dsimp only at hraw ⊢
    split
    · next v hv =>
      obtain ⟨t, -, -, -, rfl⟩ := Claimed.judge_eq_ok.1 hv
      rw [hv] at hraw
      refine announced_of_verdict rfl rfl rfl ?_ (amount_of_raw (raw_retype _ _ _) 0) none
      exact (congrArg RawTx.payload? hraw).trans hpayload.symm
    · exact ⟨rfl, rfl⟩

theorem announced_classify {l : Ledger} {tx : RawTx} {height : UInt32} {c : Classified}
    (h : l.classify tx height = .ok c) : c.Announced := by
  obtain ⟨-, -, rfl⟩ | ⟨-, -, rfl⟩ | ⟨-, -, rfl⟩ := classify_eq_ok.1 h
  · exact ⟨rfl, rfl⟩
  · exact l.announced_classifySpending _
  · exact ⟨rfl, rfl⟩

end Ledger

/-! ### Runs -/

structure Block.Coherent (b : Block) : Prop where
  txs : ∀ tx ∈ b.txs, tx.Coherent
  proposals : b.events.filterMap Event.proposal? = b.txs.filterMap Tx.proposalEvent?
  blindVotes : b.events.filterMap Event.blindVote? = b.txs.filterMap Tx.blindVoteEvent?

namespace Ledger
variable {l l' : Ledger}

def Coherent (l : Ledger) : Prop := ∀ b ∈ l.chain, b.Coherent

theorem Coherent.new (g : Genesis) : (Ledger.new g).Coherent := by simp [Coherent, Ledger.new]

theorem Coherent.storedTxs (h : l.Coherent) : ∀ tx ∈ l.storedTxs, tx.Coherent := by
  intro tx htx
  obtain ⟨b, hb, htx⟩ := List.mem_flatMap.1 htx
  exact (h b (List.mem_reverse.1 hb)).txs tx htx

theorem Coherent.modifyHead (h : l.Coherent) {f : Block → Block}
    (hc : l'.chain = l.chain.modifyHead f) (hf : ∀ b : Block, b.Coherent → (f b).Coherent) :
    l'.Coherent := by
  rw [Ledger.Coherent, hc]
  exact forall_mem_modifyHead h fun tip htip => hf tip (h tip (List.mem_of_mem_head? htip))

theorem Coherent.opened (h : l.Coherent) (raw : RawBlock) : (l.opened raw).Coherent :=
  List.forall_mem_cons.2 ⟨⟨by simp [RawBlock.opened], rfl, rfl⟩, h⟩

theorem Coherent.adopted (h : l.Coherent) {tx : RawTx} {height : UInt32} {c : Classified}
    (hc : l.classify tx height = .ok c) (hb : c.isBsq) : (l.adopted c).Coherent := by
  obtain ⟨hproposal, hvote⟩ := announced_classify hc
  refine h.modifyHead rfl fun b h => ⟨?_, ?_, ?_⟩
  · intro t ht
    cases List.mem_append.1 ht with
    | inl ht => exact h.txs t ht
    | inr ht => exact List.mem_singleton.1 ht ▸ coherent_classify hc hb
  · rw [List.filterMap_append, List.filterMap_append, h.proposals, filterMap_toList hproposal]
  · rw [List.filterMap_append, List.filterMap_append, h.blindVotes, filterMap_toList hvote]

theorem Coherent.noted (h : l.Coherent) (change : ParamChange) :
    (l.noted (.paramChange change)).Coherent :=
  h.modifyHead rfl fun _ h => ⟨h.txs,
    by rw [List.filterMap_append, h.proposals]; exact List.append_nil _,
    by rw [List.filterMap_append, h.blindVotes]; exact List.append_nil _⟩

theorem Coherent.keeps (cs : List Change) : Keeps cs Coherent where
  opened l raw _ _ h := h.opened raw
  adopted l raw tx c _ _ hc hb _ h := h.adopted hc hb
  removed l b l' hr h := by
    obtain ⟨older, hc, hchain, -⟩ := removeTip_rest hr
    intro b' hb
    rw [hchain] at hb
    exact h b' (hc ▸ List.mem_cons_of_mem b hb)
  noted l change l' ha h := by
    obtain ⟨-, -, rfl⟩ := addEvent_eq_ok.1 ha
    exact h.noted change
  issued l id height l' ha h := by
    obtain ⟨-, rfl⟩ := addIssuance_eq_ok.1 ha
    exact h

theorem Coherent.changeAll (h : l.Coherent) (cs : List Change) : (l.changeAll cs).Coherent :=
  (Coherent.keeps cs).changeAll h

/-- After any run the outputs fit the transactions, and each proposal and each blind vote has its
event, in chain order. -/
theorem coherent_of_changes (g : Genesis) (cs : List Change) :
    let l := (Ledger.new g).changeAll cs
    (∀ tx ∈ l.storedTxs, tx.Coherent) ∧
      l.proposalEvents = l.storedTxs.filterMap Tx.proposalEvent? ∧
      l.blindVoteEvents = l.storedTxs.filterMap Tx.blindVoteEvent? := by
  intro l
  have hcoherent : l.Coherent := (Coherent.new g).changeAll cs
  have h : ∀ b ∈ l.blocks, b.Coherent := fun b hb => hcoherent b (List.mem_reverse.1 hb)
  refine ⟨hcoherent.storedTxs, ?_, ?_⟩
  · rw [proposalEvents, events, storedTxs, List.filterMap_flatMap, List.filterMap_flatMap]
    exact List.flatMap_congr fun b hb => (h b hb).proposals
  · rw [blindVoteEvents, events, storedTxs, List.filterMap_flatMap, List.filterMap_flatMap]
    exact List.flatMap_congr fun b hb => (h b hb).blindVotes

example :
    let l := (Ledger.new Sample.genesis).changeAll [.apply Sample.first, .apply Sample.second]
    l.storedTxs.map (·.type) = [.genesis, .compensationRequest, .payTradeFee] ∧
      l.proposalEvents.map (·.txId) = [⟨"r"⟩] := by decide +kernel

end Ledger

end DaoLedger
