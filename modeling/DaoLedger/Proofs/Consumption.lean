import DaoLedger.Classify.Block
import DaoLedger.Proofs.Colouring
import DaoLedger.Proofs.Indexed
/-!
What a transaction takes and what it gives. Main statement: a transaction that names no BSQ output
twice holds and burns just what spending its inputs removes from the unspent outputs.
-/
namespace DaoLedger

def OutputType.isColoured : OutputType → Bool
  | .bsqOutput | .blindVoteLockStake | .bondLock => true
  | _ => false

theorem OutputType.holds_eq_isColoured {t : OutputType} (h : t ≠ .genesisOutput) :
    t.holds = t.isColoured := by
  cases t <;> first | rfl | exact absurd rfl h

def Coins.lost (before after : Coins) : List (OutputKey × Output) :=
  before.unspent.toList.filter fun e => e.1 ∉ after.unspent

theorem Coins.mem_lost_spendAll {coins : Coins} {height : UInt32} {id : TxId} {i : Nat}
    {inputs : List Input} {key : OutputKey} {o : Output} :
    (key, o) ∈ coins.lost (coins.spendAll height id i inputs) ↔
      key ∈ inputs.map Input.source ∧ coins.unspent[key]? = some o := by
  rw [lost, List.mem_filter, decide_eq_true_eq, Std.ExtTreeMap.mem_toList_iff_getElem?_eq_some,
    ← Std.ExtTreeMap.isSome_getElem?_iff_mem, unspent_spendAll, ← spender?_isSome, and_comm]
  refine and_congr_left fun hu => ?_
  by_cases hs : (spender? inputs key).isSome <;> simp [hs, hu]

theorem nodup_toList {ν : Type} (m : Map OutputKey ν) : m.toList.Nodup :=
  Std.ExtTreeMap.distinct_keys_toList.imp fun {a b} hne he =>
    hne (by rw [he]; exact Std.ReflCmp.compare_self)

theorem Coins.nodup_lost (before after : Coins) : (before.lost after).Nodup :=
  (nodup_toList _).filter _

namespace Ledger
variable {l : Ledger}

/-! ### Inputs -/

/-- The BSQ outputs that inputs name, as often as they name them. -/
def bsqNamed (l : Ledger) (inputs : List Input) : List (OutputKey × Output) :=
  inputs.filterMap fun input => (l.bsqInput? input).map (input.source, ·)

theorem bsqInput?_eq_some {input : Input} {o : Output} :
    l.bsqInput? input = some o ↔ l.coins.unspent[input.source]? = some o ∧ l.carriesBsq o := by
  rw [bsqInput?, Option.filter_eq_some_iff]
  rfl

theorem mem_bsqNamed {inputs : List Input} {key : OutputKey} {o : Output} :
    (key, o) ∈ l.bsqNamed inputs ↔
      (key ∈ inputs.map Input.source ∧ l.coins.unspent[key]? = some o) ∧ l.carriesBsq o := by
  simp only [bsqNamed, List.mem_filterMap, Option.map_eq_some_iff, bsqInput?_eq_some,
    Prod.mk.injEq, List.mem_map]
  constructor
  · rintro ⟨input, hi, o, ⟨hu, hc⟩, rfl, rfl⟩
    exact ⟨⟨⟨input, hi, rfl⟩, hu⟩, hc⟩
  · rintro ⟨⟨⟨input, hi, rfl⟩, hu⟩, hc⟩
    exact ⟨input, hi, o, ⟨hu, hc⟩, rfl, rfl⟩

theorem inputBudget_eq_total (l : Ledger) (inputs : List Input) :
    l.inputBudget inputs = total ((l.bsqNamed inputs).map (·.2.amount)) := by
  simp [inputBudget, bsqNamed, List.map_filterMap, Function.comp_def]

/-- The budget counts each input for itself, so an output must not be named twice. -/
theorem inputBudget_eq_lost {inputs : List Input} (hn : ((l.bsqNamed inputs).map (·.1)).Nodup)
    (height : UInt32) (id : TxId) (i : Nat) :
    l.inputBudget inputs =
      sumOf l.carriesBsq ((l.coins.lost (l.coins.spendAll height id i inputs)).map (·.2)) := by
  let lost := l.coins.lost (l.coins.spendAll height id i inputs)
  have hperm : (l.bsqNamed inputs).Perm (lost.filter (l.carriesBsq ·.2)) := by
    refine (List.perm_ext_iff_of_nodup hn.of_map ((Coins.nodup_lost _ _).filter _)).2 fun e => ?_
    rw [mem_bsqNamed, List.mem_filter, Coins.mem_lost_spendAll]
  rw [inputBudget_eq_total, total_perm (hperm.map _), sumOf, List.filter_map, List.map_map]
  rfl

/-! ### Outputs -/

theorem ne_genesisOutput_colour (p : Palette) (openTo : Bool) (budget i : Nat)
    (outputs : List RawOutput) :
    ∀ o ∈ (p.colour openTo budget i outputs).outputs, o.type ≠ .genesisOutput := by
  intro o ho
  obtain ⟨j, hj⟩ := List.mem_iff_getElem?.1 ho
  have htype := p.type?_colour openTo budget i outputs j
  rw [hj, Option.map_some] at htype
  obtain ⟨q, -, hq⟩ := Option.map_eq_some_iff.1 htype.symm
  rw [← hq]
  split
  · exact p.opReturn_ne (by decide) (by decide) (i + j)
  · unfold Palette.covered Palette.uncovered
    split <;> split <;> simp

theorem ne_genesisOutput_classifySpending (l : Ledger) (tx : RawTx) :
    ∀ o ∈ (l.classifySpending tx).tx.outputs, o.type ≠ .genesisOutput := by
  unfold classifySpending
  cases hc : Candidate.firstFrom? 0 tx.outputs with
  | none => exact ne_genesisOutput_colour _ _ _ _ _
  | some candidate =>
    have hcolour := ne_genesisOutput_colour (.of (some candidate)) true (l.inputBudget tx.inputs) 0
      tx.outputs
    dsimp only
    split
    · next v hv =>
      intro o ho
      rcases mem_retype ho with ho | ⟨q, -, rfl⟩
      · exact hcolour o ho
      · have hop := (Claimed.accepts_of_judge hv).outputType
        intro hg
        simp only at hg
        rw [hg] at hop
        cases hop
    · next rejection hr =>
      intro o ho
      obtain ⟨q, hq, rfl⟩ := List.mem_map.1 ho
      have hne : q.type ≠ .genesisOutput := by
        rcases mem_retype hq with hq | ⟨q', -, rfl⟩
        · exact hcolour q hq
        · simp
      rw [Output.plain]
      cases ht : q.type <;> simp_all [OutputType.plain]

end Ledger

/-- Unknown outputs and outputs without BSQ may be named any number of times. -/
theorem Ledger.coloured_add_burntFee (l l' : Ledger) (tx : RawTx) (height : UInt32) (c : Classified)
    (hc : l.classify tx height = .ok c) (hg : c.tx.type ≠ .genesis)
    (hu : c.tx.type ≠ .undefined) (ha : l.addTx c.tx = .ok l')
    (hn : ((l.bsqNamed tx.inputs).map (·.1)).Nodup) :
    let spent := l.coins.spendAll c.tx.blockHeight c.tx.id 0 c.tx.inputs
    l'.coins = spent.createAll c.tx.outputs ∧
      sumOf (·.type.isColoured) c.tx.outputs + c.tx.burntFee =
        sumOf l.carriesBsq ((l.coins.lost spent).map (·.2)) := by
  intro spent
  have hw : l' = l.written c.tx := (addTx_eq_ok.1 ha).2
  refine ⟨by rw [hw]; rfl, ?_⟩
  rcases classify_eq_ok.1 hc with ⟨-, -, rfl⟩ | ⟨-, -, rfl⟩ | ⟨-, -, rfl⟩
  · exact absurd rfl hg
  · have hs := l.spends_classifySpending (tx.placed height)
    have hinputs : (l.classifySpending (tx.placed height)).tx.inputs = tx.inputs :=
      congrArg RawTx.inputs hs.raw
    have hheld : sumOf (·.type.isColoured) (l.classifySpending (tx.placed height)).tx.outputs =
        held (l.classifySpending (tx.placed height)).tx.outputs :=
      sumOf_congr fun o ho =>
        (OutputType.holds_eq_isColoured (l.ne_genesisOutput_classifySpending _ o ho)).symm
    have hbudget : l.inputBudget (tx.placed height).inputs = l.inputBudget tx.inputs := rfl
    rw [hheld, hs.balance, hbudget, inputBudget_eq_lost hn, ← hinputs]
  · exact absurd rfl hu

theorem Ledger.coloured_add_burntFee_payment :
    let l := ((Ledger.new Sample.genesis).applyAll [Sample.first]).opened Sample.second
    let tx := { Sample.payment with inputs := Sample.input "x" 9 :: Sample.idle.inputs ++
      Sample.payment.inputs }
    let c := l.classifySpending (tx.placed 11)
    let spent := l.coins.spendAll 11 tx.id 0 tx.inputs
    l.classify tx 11 = .ok c ∧ c.tx.type = .payTradeFee ∧ l.addTx c.tx = .ok (l.written c.tx) ∧
      ((l.bsqNamed tx.inputs).map (·.1)).Nodup ∧
      (l.coins.lost spent).map (·.1) = [⟨⟨"g"⟩, 0⟩] ∧
      sumOf (·.type.isColoured) c.tx.outputs + c.tx.burntFee =
        sumOf l.carriesBsq ((l.coins.lost spent).map (·.2)) := by
  intro l tx c spent
  have hc : l.classify tx 11 = .ok c :=
    classify_eq_ok.2 (.inr (.inl ⟨by decide +kernel, by decide +kernel, rfl⟩))
  have htype : c.tx.type = .payTradeFee := by decide +kernel
  have ha : l.addTx c.tx = .ok (l.written c.tx) :=
    addTx_eq_ok.2 ⟨⟨⟨Sample.second.opened, rfl, by decide +kernel⟩, by decide +kernel⟩, rfl⟩
  have hn : ((l.bsqNamed tx.inputs).map (·.1)).Nodup := by decide +kernel
  obtain ⟨-, hsum⟩ := Ledger.coloured_add_burntFee l _ tx 11 c hc (by rw [htype]; decide)
    (by rw [htype]; decide) ha hn
  exact ⟨hc, htype, ha, hn, by decide +kernel, hsum⟩

/-- The output of 600 is removed once and coloured twice. -/
theorem Ledger.doubled_input_colours_twice :
    ¬∀ (g : Genesis) (raws : List RawBlock) (raw : RawBlock) (l l' : Ledger) (tx : RawTx)
      (height : UInt32) (c : Classified), ((Ledger.new g).applyAll raws).start raw = .ok l →
        l.classify tx height = .ok c → c.tx.type ≠ .genesis → c.tx.type ≠ .undefined →
          l.addTx c.tx = .ok l' →
            let spent := l.coins.spendAll c.tx.blockHeight c.tx.id 0 c.tx.inputs
            sumOf (·.type.isColoured) c.tx.outputs + c.tx.burntFee =
              sumOf l.carriesBsq ((l.coins.lost spent).map (·.2)) := by
  intro h
  let before := (Ledger.new Sample.genesis).applyAll [Sample.first]
  let l := before.opened Sample.second
  let tx := { Sample.payment with
    inputs := [Sample.input "g" 0, Sample.input "g" 0], outputs := [Sample.output "p" 0 1200] }
  let c := l.classifySpending (tx.placed 11)
  have hm : before.misfit? Sample.second = none := by decide +kernel
  have hs : before.start Sample.second = .ok l := start_eq_ok.2 ⟨hm, by decide +kernel, rfl⟩
  have hc : l.classify tx 11 = .ok c :=
    classify_eq_ok.2 (.inr (.inl ⟨by decide +kernel, by decide +kernel, rfl⟩))
  have htype : c.tx.type = .transferBsq := by decide +kernel
  have ha : l.addTx c.tx = .ok (l.written c.tx) :=
    addTx_eq_ok.2 ⟨⟨⟨Sample.second.opened, rfl, by decide +kernel⟩, by decide +kernel⟩, rfl⟩
  have hsum := h Sample.genesis [Sample.first] Sample.second l _ tx 11 c hs hc
    (by rw [htype]; decide) (by rw [htype]; decide) ha
  revert hsum
  decide +kernel

end DaoLedger
