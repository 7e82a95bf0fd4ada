import DaoLedger.Proofs.Recognition
/-!
The outputs that colouring reaches. Main statement: of the outputs that are no OP_RETURN the longest
covered prefix is coloured, and no payload changes which outputs these are or what is burnt.
-/
namespace DaoLedger

def RawTx.asked (tx : RawTx) : List Nat :=
  (tx.outputs.filter fun o => !o.isOpReturn).map RawOutput.amount

def Tx.payable (tx : Tx) : List Output := tx.outputs.filter fun o => !o.isOpReturn

/-- The budget covers the amounts up to a position and is not used up before any of them. -/
def CoversUpTo (budget : Nat) (amounts : List Nat) (i : Nat) : Prop :=
  ∀ j ≤ i, total (amounts.take j) < budget ∧ total (amounts.take (j + 1)) ≤ budget

def RawTx.blank (tx : RawTx) : RawTx :=
  { tx with outputs := tx.outputs.map fun o => { o with payload := o.payload.map fun _ => [] } }

/-! ### Prefixes -/

theorem getElem?_filter_eq_some {α : Type} {p : α → Bool} {xs : List α} {i : Nat} {x : α}
    (h : (xs.filter p)[i]? = some x) :
    ∃ k, xs[k]? = some x ∧ p x ∧ (xs.take k).filter p = (xs.filter p).take i := by
  induction xs generalizing i with
  | nil => simp at h
  | cons y xs ih =>
    by_cases hp : p y
    · rw [List.filter_cons_of_pos hp] at h ⊢
      cases i with
      | zero =>
        obtain rfl : y = x := by simpa using h
        exact ⟨0, rfl, hp, rfl⟩
      | succ i =>
        obtain ⟨k, hk, hx, htake⟩ := ih h
        exact ⟨k + 1, hk, hx, by simp [hp, htake]⟩
    · rw [List.filter_cons_of_neg hp] at h ⊢
      obtain ⟨k, hk, hx, htake⟩ := ih h
      exact ⟨k + 1, hk, hx, by simp [hp, htake]⟩

theorem total_take_mono (amounts : List Nat) {i j : Nat} (h : j ≤ i) :
    total (amounts.take j) ≤ total (amounts.take i) := by
  have hsplit : amounts.take i = amounts.take j ++ (amounts.drop j).take (i - j) := by
    rw [← List.take_add, Nat.add_sub_cancel' h]
  rw [hsplit, total_append]
  exact Nat.le_add_right _ _

/-- The last position decides: what comes before it asks for less. -/
theorem coversUpTo_iff {budget : Nat} {amounts : List Nat} {i : Nat} :
    CoversUpTo budget amounts i ↔
      total (amounts.take i) < budget ∧ total (amounts.take (i + 1)) ≤ budget := by
  refine ⟨fun h => h i (Nat.le_refl i), fun ⟨hlt, hle⟩ j hj => ⟨?_, ?_⟩⟩
  · exact Nat.lt_of_le_of_lt (total_take_mono amounts hj) hlt
  · exact Nat.le_trans (total_take_mono amounts (Nat.succ_le_succ hj)) hle

theorem affords_iff_coversUpTo {tx : RawTx} {budget i k : Nat} {o : RawOutput}
    (htake : (tx.outputs.take k).filter (fun o => !o.isOpReturn) =
      (tx.outputs.filter fun o => !o.isOpReturn).take i)
    (ho : tx.asked[i]? = some o.amount) :
    Affords budget tx.outputs k o ↔ CoversUpTo budget tx.asked i := by
  have hbefore : valueBefore tx.outputs k = total (tx.asked.take i) := by
    rw [valueBefore, htake, RawTx.asked, List.map_take]
  have hwith : total (tx.asked.take (i + 1)) = total (tx.asked.take i) + o.amount := by
    rw [List.take_add_one, ho, total_append]
    rfl
  rw [coversUpTo_iff, hwith, Affords, hbefore]

theorem Budgeted.isColoured_iff {budget k : Nat} {raws : List RawOutput} {outputs : List Output}
    {o : Output} (h : Budgeted budget raws outputs) (hk : outputs[k]? = some o) :
    o.type.isColoured ↔ o.payload = none ∧ Affords budget raws k o.toRawOutput := by
  obtain ⟨dye, hdyed, hiff⟩ := h
  obtain ⟨raw, hraw, rfl⟩ := Option.map_eq_some_iff.1 ((hdyed k).symm.trans hk)
  exact hiff k raw hraw

/-! ### Outputs that are not coloured -/

def OutputType.isPaid (t : OutputType) : Prop :=
  t.isColoured ∨ t = .btcOutput ∨ t = .issuanceCandidate

theorem OutputType.isPaid.plain {t : OutputType} (h : t.isPaid) : t.plain.isPaid := by
  unfold isPaid at h ⊢
  cases t <;> simp_all [isColoured, OutputType.plain]

theorem Palette.isPaid_paint (p : Palette) {budget i : Nat} {raws : List RawOutput} {o : RawOutput}
    (h : ¬o.isOpReturn) : (p.paint budget raws i o).isPaid := by
  unfold paint covered uncovered
  rw [if_neg h]
  split
  · split <;> exact .inl rfl
  · split
    · exact .inr (.inr rfl)
    · exact .inr (.inl rfl)

namespace Ledger
variable {l : Ledger} {tx : RawTx} {height : UInt32}

theorem isPaid_classifySpending (l : Ledger) (tx : RawTx) :
    ∀ o ∈ (l.classifySpending tx).tx.outputs, ¬o.isOpReturn → o.type.isPaid := by
  have hcolour (p : Palette) (o : Output)
      (ho : o ∈ (p.colour true (l.inputBudget tx.inputs) 0 tx.outputs).outputs)
      (hop : ¬o.isOpReturn) : o.type.isPaid := by
    obtain ⟨i, raw, -, rfl⟩ := (dyed_colour p _ _).exists_of_mem ho
    exact p.isPaid_paint hop
  unfold classifySpending
  cases hc : Candidate.firstFrom? 0 tx.outputs with
  | none => exact hcolour _
  | some candidate =>
    -- The output that is retyped is an OP_RETURN.
    have hretype (type : OutputType) (o : Output)
        (ho : o ∈ retype type
          ((Palette.of (some candidate)).colour true (l.inputBudget tx.inputs) 0 tx.outputs).outputs
          candidate.position)
        (hop : ¬o.isOpReturn) : o.type.isPaid := by
      rcases mem_retype ho with ho | ⟨q, hq, rfl⟩
      · exact hcolour _ o ho hop
      · exact absurd (candidate_colour hc hq).1 hop
    dsimp only
    split
    · exact hretype _
    · intro o ho hop
      obtain ⟨q, hq, rfl⟩ := List.mem_map.1 ho
      exact (hretype _ q hq hop).plain

/-! ### Payloads -/

theorem valueBefore_blank (tx : RawTx) (i : Nat) :
    valueBefore tx.blank.outputs i = valueBefore tx.outputs i := by
  have hsame : (fun o : RawOutput => !o.isOpReturn) ∘
      (fun o : RawOutput => { o with payload := o.payload.map fun _ => [] }) =
        fun o => !o.isOpReturn := by
    funext o
    simp [RawOutput.isOpReturn]
  rw [valueBefore, RawTx.blank, ← List.map_take, List.filter_map, List.map_map, hsame]
  rfl

theorem burns_blank {fee : Nat} : l.Burns tx.blank fee ↔ l.Burns tx fee := by
  simp only [Burns, valueBefore_blank]
  rfl

theorem pays_blank {i : Nat} : l.Pays tx.blank i ↔ l.Pays tx i := by
  have hraw : tx.blank.outputs[i]? =
      tx.outputs[i]?.map fun o => { o with payload := o.payload.map fun _ => [] } :=
    List.getElem?_map ..
  simp only [Pays, Affords, valueBefore_blank, hraw]
  cases tx.outputs[i]? with
  | none => simp
  | some o => simp [RawTx.blank, RawOutput.amount]

/-! ### Classifying -/

/-- The longest covered prefix is coloured; what it leaves of the budget is burnt. -/
structure ColoursPrefix (l : Ledger) (tx : RawTx) (result : Tx) : Prop where
  amounts : result.payable.map (·.amount) = tx.asked
  coloured : ∀ (i : Nat) o, result.payable[i]? = some o →
    (o.type.isColoured ↔ CoversUpTo (l.inputBudget tx.inputs) tx.asked i)
  rest : ∀ o ∈ result.payable, ¬o.type.isColoured →
    o.type = .btcOutput ∨ o.type = .issuanceCandidate
  opReturn : ∀ o ∈ result.outputs, o.isOpReturn → ¬o.type.isColoured
  burnt : sumOf (·.type.isColoured) result.outputs + result.burntFee = l.inputBudget tx.inputs

theorem amounts_payable (tx : Tx) : tx.payable.map (·.amount) = tx.raw.asked := by
  rw [RawTx.asked, Tx.raw, List.filter_map, List.map_map]
  rfl

theorem asked_placed (tx : RawTx) (height : UInt32) : (tx.placed height).asked = tx.asked := by
  rw [RawTx.asked, RawTx.placed, List.filter_map, List.map_map]
  rfl

theorem coloured_payable {result : Tx} (hraw : result.raw = tx)
    (h : Budgeted (l.inputBudget tx.inputs) tx.outputs result.outputs) {i : Nat} {o : Output}
    (hi : result.payable[i]? = some o) :
    o.type.isColoured ↔ CoversUpTo (l.inputBudget tx.inputs) tx.asked i := by
  subst hraw
  obtain ⟨k, hk, hop, htake⟩ := getElem?_filter_eq_some hi
  have hasked : result.raw.asked[i]? = some o.amount := by
    rw [← amounts_payable, List.getElem?_map, hi]
    rfl
  have htake' : (result.raw.outputs.take k).filter (fun o => !o.isOpReturn) =
      (result.raw.outputs.filter fun o => !o.isOpReturn).take i := by
    rw [Tx.raw, ← List.map_take, List.filter_map, List.filter_map, ← List.map_take]
    exact congrArg (List.map Output.toRawOutput) htake
  rw [h.isColoured_iff hk, affords_iff_coversUpTo htake' hasked]
  exact and_iff_right (by simpa [RawOutput.isOpReturn] using hop)

theorem coloursPrefix_classifySpending (l : Ledger) (tx : RawTx) :
    l.ColoursPrefix tx (l.classifySpending tx).tx := by
  have hspends := l.spends_classifySpending tx
  have hbudgeted := l.budgeted_classifySpending tx
  refine ⟨?_, fun i o hi => coloured_payable hspends.raw hbudgeted hi, ?_, ?_, ?_⟩
  · rw [amounts_payable, hspends.raw]
  · intro o ho hnot
    obtain ⟨hm, hop⟩ := List.mem_filter.1 ho
    exact (l.isPaid_classifySpending tx o hm (by simpa using hop)).resolve_left hnot
  · intro o ho hop hcoloured
    obtain ⟨k, hk⟩ := List.mem_iff_getElem?.1 ho
    have hnone := ((hbudgeted.isColoured_iff hk).1 hcoloured).1
    rw [RawOutput.isOpReturn, hnone] at hop
    cases hop
  · rw [← hspends.balance, held]
    congr 1
    refine sumOf_congr fun o ho => ?_
    exact (OutputType.holds_eq_isColoured (l.ne_genesisOutput_classifySpending tx o ho)).symm

theorem ColoursPrefix.of_placed {result : Tx} (h : l.ColoursPrefix (tx.placed height) result) :
    l.ColoursPrefix tx result := by
  have hbudget : l.inputBudget (tx.placed height).inputs = l.inputBudget tx.inputs := rfl
  obtain ⟨amounts, coloured, rest, opReturn, burnt⟩ := h
  simp only [asked_placed, hbudget] at amounts coloured burnt
  exact ⟨amounts, coloured, rest, opReturn, burnt⟩

theorem classifySpending_of_blank {tx' : RawTx} (h : tx'.blank = tx.blank) :
    (l.classifySpending (tx'.placed height)).tx.burntFee =
        (l.classifySpending (tx.placed height)).tx.burntFee ∧
      ∀ i, (l.classifySpending (tx'.placed height)).tx.Colours i ↔
        (l.classifySpending (tx.placed height)).tx.Colours i := by
  constructor
  · have hburns := burns_blank.2 (l.burns_classifySpending tx' height)
    rw [h] at hburns
    exact (burns_blank.1 hburns).unique (l.burns_classifySpending tx height)
  · intro i
    rw [colours_classifySpending, colours_classifySpending, ← pays_blank, h, pays_blank]

end Ledger

theorem Ledger.colours_longest_covered_prefix (l : Ledger) (tx : RawTx) (height : UInt32)
    (hg : ¬l.genesis.names tx) (hb : l.hasBsqInput tx.inputs) :
    ∃ c, l.classify tx height = .ok c ∧ l.ColoursPrefix tx c.tx ∧
      ∀ tx', tx'.blank = tx.blank → ∃ c', l.classify tx' height = .ok c' ∧
        c'.tx.burntFee = c.tx.burntFee ∧ ∀ i, c'.tx.Colours i ↔ c.tx.Colours i := by
  refine ⟨_, classify_eq_ok.2 (.inr (.inl ⟨hg, hb, rfl⟩)),
    (l.coloursPrefix_classifySpending _).of_placed, fun tx' h => ?_⟩
  obtain ⟨hid, hheight, -, -, hinputs, -⟩ := RawTx.mk.inj h
  have hg' : ¬l.genesis.names tx' := by rwa [Genesis.names, hid, hheight, ← Genesis.names]
  have hb' : l.hasBsqInput tx'.inputs := hinputs ▸ hb
  exact ⟨_, classify_eq_ok.2 (.inr (.inl ⟨hg', hb', rfl⟩)), classifySpending_of_blank h⟩

theorem Ledger.request_colours_first_output :
    let l := (Ledger.new Sample.genesis).applyAll [{ Sample.first with txs := [Sample.supply] }]
    let garbled := { Sample.request with outputs := [Sample.output "r" 0 200, Sample.output "r" 1 5000,
      { Sample.output "r" 2 0 with payload := some [0xff] }] }
    ¬l.genesis.names Sample.request ∧ l.hasBsqInput Sample.request.inputs ∧
      garbled.blank = Sample.request.blank ∧
      ∃ c c', l.classify Sample.request 10 = .ok c ∧ l.classify garbled 10 = .ok c' ∧
        c.tx.type = .compensationRequest ∧ c'.tx.type = .invalid ∧
        l.ColoursPrefix Sample.request c.tx ∧ c.tx.burntFee = 200 ∧
        c'.tx.burntFee = c.tx.burntFee ∧ ∀ i, c'.tx.Colours i ↔ c.tx.Colours i := by
  intro l garbled
  have hg : ¬l.genesis.names Sample.request := by decide +kernel
  have hb : l.hasBsqInput Sample.request.inputs := by decide +kernel
  have hblank : garbled.blank = Sample.request.blank := by decide +kernel
  obtain ⟨c, hc, hprefix, halike⟩ :=
    Ledger.colours_longest_covered_prefix l Sample.request 10 hg hb
  obtain ⟨c', hc', hfee, hcolours⟩ := halike garbled hblank
  have hrequest : (l.classify Sample.request 10).map (fun c => (c.tx.type, c.tx.burntFee)) =
      .ok (.compensationRequest, 200) := by decide +kernel
  have hgarbled : (l.classify garbled 10).map (·.tx.type) = .ok .invalid := by decide +kernel
  rw [hc] at hrequest
  rw [hc'] at hgarbled
  have hpair := Prod.mk.inj (Except.ok.inj hrequest)
  exact ⟨hg, hb, hblank, c, c', hc, hc', hpair.1, Except.ok.inj hgarbled, hprefix, hpair.2, hfee,
    hcolours⟩

end DaoLedger
