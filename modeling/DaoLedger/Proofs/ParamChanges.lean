import DaoLedger.Proofs.Agreement
/-!
The history of param changes beside the blocks that recorded them. Main statement: the history is
what the stored blocks recorded exactly as long as no removed block repeats a change of a block
below it, for then that one is forgotten too; and removing a block gives every param its values from
before the block was started unless a change of that param was repeated.
-/
namespace DaoLedger

def Block.paramChanges (b : Block) : List ParamChange := b.events.filterMap Event.paramChange?

def changesOf (chain : List Block) : List ParamChange := chain.reverse.flatMap Block.paramChanges

theorem changesOf_cons (b : Block) (older : List Block) :
    changesOf (b :: older) = changesOf older ++ b.paramChanges := by
  simp [changesOf]

theorem filter_notMem_self (cs : List ParamChange) : cs.filter (· ∉ cs) = [] := by
  simp

theorem Param.valueAt_congr {param : Param} {cs ds : List ParamChange}
    (h : cs.filter (·.param = param) = ds.filter (·.param = param)) (height : Nat) :
    param.valueAt cs height = param.valueAt ds height := by
  have key (cs : List ParamChange) : cs.filter (·.effective param height) =
      (cs.filter (·.param = param)).filter (·.activationHeight.toNat ≤ height) := by
    rw [List.filter_filter]
    exact List.filter_congr fun c _ => by rw [ParamChange.effective, Bool.and_comm]
  rw [Param.valueAt, Param.valueAt, key cs, key ds, h]

namespace Ledger
variable {l l' : Ledger}

def recordedChanges (l : Ledger) : List ParamChange := l.events.filterMap Event.paramChange?

theorem recordedChanges_eq (l : Ledger) : l.recordedChanges = changesOf l.chain := by
  rw [recordedChanges, events, blocks, List.filterMap_flatMap]
  rfl

/-- The history is what the stored blocks recorded. -/
def Recorded (l : Ledger) : Prop := l.paramChanges = l.recordedChanges

instance (l : Ledger) : Decidable l.Recorded :=
  inferInstanceAs (Decidable (l.paramChanges = l.recordedChanges))

/-- Whether a run of writes removes the block `b`, which leaves `l'`. -/
def Removes (l : Ledger) (ws : List Write) (b : Block) (l' : Ledger) : Prop :=
  ∃ seen, seen ++ [.removeTip] <+: ws ∧ (l.writeAll seen).removeTip = some (b, l')

theorem removes_append_one {ws : List Write} {w : Write} {b : Block} :
    l.Removes (ws ++ [w]) b l' ↔
      l.Removes ws b l' ∨ w = .removeTip ∧ (l.writeAll ws).removeTip = some (b, l') := by
  constructor
  · rintro ⟨seen, hs, hr⟩
    cases List.prefix_concat_iff.1 hs with
    | inl heq =>
      obtain ⟨rfl, hw⟩ := List.append_inj' heq rfl
      exact .inr ⟨(List.singleton_inj.1 hw).symm, hr⟩
    | inr hs => exact .inl ⟨seen, hs, hr⟩
  · rintro (⟨seen, hs, hr⟩ | ⟨rfl, hr⟩)
    · exact ⟨seen, hs.trans (List.prefix_append ..), hr⟩
    · exact ⟨ws, List.prefix_refl _, hr⟩

theorem writeAll_append (l : Ledger) (ws more : List Write) :
    l.writeAll (ws ++ more) = (l.writeAll ws).writeAll more :=
  List.foldl_append ..

theorem write_removeTip {b : Block} (hr : l.removeTip = some (b, l')) :
    l.write .removeTip = l' := by
  rw [write, hr]
  rfl

/-! ### One write -/

inductive Noting (l : Ledger) : Write → Ledger → Prop where
  | same {w : Write} {l' : Ledger} (hc : l'.chain = l.chain)
      (hp : l'.paramChanges = l.paramChanges) : Noting l w l'
  | opened {w : Write} {raw : RawBlock} {l' : Ledger} (hc : l'.chain = raw.opened :: l.chain)
      (hp : l'.paramChanges = l.paramChanges) : Noting l w l'
  | extended {w : Write} {tip tip' : Block} {older : List Block} {more : List ParamChange}
      {l' : Ledger} (hc : l.chain = tip :: older) (hc' : l'.chain = tip' :: older)
      (ht : tip'.paramChanges = tip.paramChanges ++ more)
      (hp : l'.paramChanges = l.paramChanges ++ more) : Noting l w l'
  | removed {b : Block} {l' : Ledger} (hr : l.removeTip = some (b, l')) : Noting l .removeTip l'

theorem noting_write (l : Ledger) (w : Write) : Noting l w (l.write w) := by
  cases w with
  | start raw =>
    refine started_cases (.same rfl rfl) fun l' hs => ?_
    obtain ⟨-, -, rfl⟩ := start_eq_ok.1 hs
    exact .opened rfl rfl
  | addTx tx =>
    refine kept_cases (.same rfl rfl) fun l' ha => ?_
    obtain ⟨⟨⟨tip, hhead, -⟩, -⟩, rfl⟩ := addTx_eq_ok.1 ha
    obtain ⟨older, hc⟩ := List.head?_eq_some_iff.1 hhead
    have hc' : (l.written tx).chain = { tip with txs := tip.txs ++ [tx] } :: older := by
      rw [written, hc]
      rfl
    exact .extended hc hc' (List.append_nil _).symm (List.append_nil _).symm
  | addEvent event =>
    refine kept_cases (.same rfl rfl) fun l' ha => ?_
    obtain ⟨-, hne, rfl⟩ := addEvent_eq_ok.1 ha
    obtain ⟨tip, older, hc⟩ := List.exists_cons_of_ne_nil hne
    refine .extended hc (by rw [noted, hc]; rfl) ?_ rfl
    simp only [Block.paramChanges, List.filterMap_append]
    cases event <;> rfl
  | addIssuance txId height =>
    refine kept_cases (.same rfl rfl) fun l' ha => ?_
    obtain ⟨-, rfl⟩ := addIssuance_eq_ok.1 ha
    exact .same rfl rfl
  | removeTip =>
    cases hr : l.removeTip with
    | none =>
      rw [write, hr]
      exact .same rfl rfl
    | some r =>
      rw [write_removeTip hr]
      exact .removed hr

theorem removeTip_paramChanges {b : Block} (hr : l.removeTip = some (b, l')) :
    l.chain = b :: l'.chain ∧ l'.paramChanges = l.paramChanges.filter (· ∉ b.paramChanges) := by
  obtain ⟨older, hc, hc', -, -, hp⟩ := removeTip_rest hr
  exact ⟨hc' ▸ hc, hp⟩

/-! ### Agreement with the blocks -/

/-- A removal drops the changes of the removed block wherever they stand in the history. -/
theorem Recorded.removeTip_iff (h : l.Recorded) {b : Block} (hr : l.removeTip = some (b, l')) :
    l'.Recorded ↔ ∀ c ∈ b.paramChanges, c ∉ l'.recordedChanges := by
  obtain ⟨hc, hp⟩ := removeTip_paramChanges hr
  have hafter : l'.paramChanges = (changesOf l'.chain).filter (· ∉ b.paramChanges) := by
    rw [hp, h, recordedChanges_eq, hc, changesOf_cons, List.filter_append, filter_notMem_self,
      List.append_nil]
  rw [Recorded, hafter, recordedChanges_eq, List.filter_eq_self]
  simp only [decide_eq_true_eq]
  exact ⟨fun hall c hm hrec => hall c hrec hm, fun hall c hrec hm => hall c hm hrec⟩

theorem Recorded.step (h : l.Recorded) {w : Write} (hn : Noting l w l')
    (hw : w = .removeTip → ∀ b, l.removeTip = some (b, l') →
      ∀ c ∈ b.paramChanges, c ∉ l'.recordedChanges) :
    l'.Recorded := by
  have hl : l.paramChanges = changesOf l.chain := h.trans l.recordedChanges_eq
  cases hn with
  | same hc hp => rw [Recorded, recordedChanges_eq, hc, hp, hl]
  | opened hc hp =>
    rw [Recorded, recordedChanges_eq, hc, changesOf_cons, hp, hl]
    exact (List.append_nil _).symm
  | extended hc hc' ht hp =>
    rw [Recorded, recordedChanges_eq, hc', changesOf_cons, hp, hl, hc, changesOf_cons, ht,
      List.append_assoc]
  | removed hr => exact (h.removeTip_iff hr).2 (hw rfl _ hr)

theorem recorded_new (g : Genesis) : (Ledger.new g).Recorded := rfl

theorem recorded_run_iff (h : l.Recorded) (ws : List Write) :
    (∀ seen, seen <+: ws → (l.writeAll seen).Recorded) ↔
      ∀ b l', l.Removes ws b l' → ∀ c ∈ b.paramChanges, c ∉ l'.recordedChanges := by
  constructor
  · rintro hall b l' ⟨seen, hs, hr⟩
    have hbefore := hall seen ((List.prefix_append ..).trans hs)
    have hafter := hall _ hs
    rw [writeAll_append] at hafter
    refine (hbefore.removeTip_iff hr).1 ?_
    rw [← write_removeTip hr]
    exact hafter
  · intro hall seen
    induction seen using List.reverseRecOn with
    | nil => exact fun _ => h
    | append_singleton seen w ih =>
      intro hs
      have hbefore := ih ((List.prefix_append ..).trans hs)
      rw [writeAll_append]
      refine hbefore.step (noting_write _ w) ?_
      rintro rfl b hr
      exact hall b _ ⟨seen, hs, hr⟩

/-! ### A block from its start to its removal -/

/-- What stands on the blocks of `base`, and what came to the history with it: `old` is what is left
of the history of `base`, with nothing lost for `param`. -/
structure Atop (param : Param) (base l : Ledger) : Prop where
  parts : ∃ top old new, l.chain = top ++ base.chain ∧ l.paramChanges = old ++ new ∧
    new.Sublist (changesOf top) ∧ old.Sublist base.paramChanges ∧
    old.filter (·.param = param) = base.paramChanges.filter (·.param = param)

namespace Atop
variable {param : Param} {base : Ledger}

theorem refl (l : Ledger) : Atop param l l :=
  ⟨[], l.paramChanges, [], rfl, (List.append_nil _).symm, .slnil, .refl _, rfl⟩

theorem exists_cons_of_lt {top chain : List Block} (hlong : chain.length < (top ++ chain).length) :
    ∃ t older, top = t :: older := by
  rw [List.length_append] at hlong
  exact List.exists_cons_of_length_pos (by omega)

theorem removeTip (h : Atop param base l) (hlong : base.chain.length < l.chain.length) {b : Block}
    (hr : l.removeTip = some (b, l'))
    (hb : ∀ c ∈ b.paramChanges, c.param = param → c ∉ base.paramChanges) : Atop param base l' := by
  obtain ⟨top, old, new, hc, hp, hnew, hold, hkept⟩ := h
  obtain ⟨hchain, hparams⟩ := removeTip_paramChanges hr
  obtain ⟨t, top, rfl⟩ := exists_cons_of_lt (hc ▸ hlong)
  rw [hc, List.cons_append, List.cons.injEq] at hchain
  obtain ⟨rfl, hchain⟩ := hchain
  refine ⟨top, old.filter (· ∉ t.paramChanges), new.filter (· ∉ t.paramChanges), hchain.symm,
    by rw [hparams, hp, List.filter_append], ?_, List.filter_sublist.trans hold, ?_⟩
  · -- The new changes that are left were recorded below the removed block.
    have hsub := hnew.filter (· ∉ t.paramChanges)
    rw [changesOf_cons, List.filter_append, filter_notMem_self, List.append_nil] at hsub
    exact hsub.trans List.filter_sublist
  · rw [List.filter_filter, List.filter_congr fun c _ => Bool.and_comm _ _, ← List.filter_filter,
      hkept]
    refine List.filter_eq_self.2 fun c hm => ?_
    obtain ⟨hm, hparam⟩ := List.mem_filter.1 hm
    simp only [decide_eq_true_eq] at hparam ⊢
    exact fun hdrop => hb c hdrop hparam hm

theorem step (h : Atop param base l) {w : Write} (hn : Noting l w l')
    (hlong : l.chain ≠ [] → base.chain.length < l.chain.length)
    (hw : w = .removeTip → ∀ b, l.removeTip = some (b, l') →
      ∀ c ∈ b.paramChanges, c.param = param → c ∉ base.paramChanges) :
    Atop param base l' := by
  cases hn with
  | same hc hp =>
    obtain ⟨top, old, new, hchain, hparams, hrest⟩ := h
    exact ⟨top, old, new, hc.trans hchain, hp.trans hparams, hrest⟩
  | opened hc hp =>
    obtain ⟨top, old, new, hchain, hparams, hnew, hrest⟩ := h
    refine ⟨_ :: top, old, new, by rw [hc, hchain]; rfl, hp.trans hparams, ?_, hrest⟩
    rw [changesOf_cons]
    exact hnew.trans (List.sublist_append_left ..)
  | extended hc hc' ht hp =>
    obtain ⟨top, old, new, hchain, hparams, hnew, hrest⟩ := h
    have hlong := hlong (by rw [hc]; exact List.cons_ne_nil _ _)
    obtain ⟨t, top, rfl⟩ := exists_cons_of_lt (hchain ▸ hlong)
    rw [hc, List.cons_append, List.cons.injEq] at hchain
    obtain ⟨rfl, hchain⟩ := hchain
    refine ⟨_ :: top, old, new ++ _, by rw [hc', hchain]; rfl,
      by rw [hp, hparams, List.append_assoc], ?_, hrest⟩
    rw [changesOf_cons] at hnew ⊢
    rw [ht, ← List.append_assoc]
    exact hnew.append (.refl _)
  | removed hr =>
    have hne : l.chain ≠ [] := by
      rw [(removeTip_paramChanges hr).1]
      exact List.cons_ne_nil _ _
    exact h.removeTip (hlong hne) hr (hw rfl _ hr)

theorem writeAll (h : Atop param base l) {ws : List Write}
    (hlong : ∀ seen, seen <+: ws → (l.writeAll seen).chain ≠ [] →
      base.chain.length < (l.writeAll seen).chain.length)
    (hw : ∀ b l', l.Removes ws b l' → ∀ c ∈ b.paramChanges, c.param = param →
      c ∉ base.paramChanges) :
    Atop param base (l.writeAll ws) := by
  induction ws using List.reverseRecOn with
  | nil => exact h
  | append_singleton ws w ih =>
    have hpre : ws <+: ws ++ [w] := List.prefix_append ..
    have hbefore := ih (fun seen hs => hlong seen (hs.trans hpre)) fun b l' hr =>
      hw b l' (removes_append_one.2 (.inl hr))
    rw [writeAll_append]
    refine hbefore.step (noting_write _ w) (hlong ws hpre) ?_
    rintro rfl b hr
    exact hw b _ (removes_append_one.2 (.inr ⟨rfl, hr⟩))

theorem opened (base : Ledger) (raw : RawBlock) : Atop param base (base.opened raw) :=
  ⟨[raw.opened], base.paramChanges, [], rfl, (List.append_nil _).symm, List.nil_sublist _, .refl _,
    rfl⟩

theorem paramValue_eq (h : Atop param base l) (hlen : l.chain.length = base.chain.length)
    (height : Nat) : l.paramValue param height = base.paramValue param height := by
  obtain ⟨top, old, new, hc, hp, hnew, -, hkept⟩ := h
  rw [hc, List.length_append, Nat.add_eq_right] at hlen
  rw [List.eq_nil_of_length_eq_zero hlen] at hnew
  have hnil : new = [] := List.sublist_nil.1 hnew
  refine Param.valueAt_congr ?_ height
  rw [hp, hnil, List.append_nil, hkept]

end Atop

/-- Nothing stands in the history that no stored block recorded. -/
theorem paramChanges_sublist (g : Genesis) (ws : List Write) :
    ((Ledger.new g).writeAll ws).paramChanges.Sublist
      ((Ledger.new g).writeAll ws).recordedChanges := by
  have h : Atop .proposalFee (Ledger.new g) ((Ledger.new g).writeAll ws) :=
    (Atop.refl _).writeAll (fun _ _ hne => List.length_pos_of_ne_nil hne) fun _ _ _ _ _ _ => by
      simp [Ledger.new]
  obtain ⟨top, old, new, hc, hp, hnew, hold, -⟩ := h
  have hnil : old = [] := List.sublist_nil.1 hold
  have htop : ((Ledger.new g).writeAll ws).chain = top := by rw [hc]; exact List.append_nil _
  rw [recordedChanges_eq, hp, hnil, htop]
  exact hnew

/-- The blocks decide the history of every run in which no removed block repeats a change of a
block below it, and of no other. -/
theorem recorded_iff_unrepeated (g : Genesis) (ws : List Write) :
    let l := (Ledger.new g).writeAll ws
    l.paramChanges.Sublist l.recordedChanges ∧
      ((∀ seen, seen <+: ws → ((Ledger.new g).writeAll seen).Recorded) ↔
        ∀ b after, (Ledger.new g).Removes ws b after →
          ∀ c ∈ b.paramChanges, c ∉ after.recordedChanges) ∧
      -- From the start of a block to its removal.
      ∀ raw opened during b after, l.start raw = .ok opened →
        (∀ seen, seen <+: during → l.chain.length < (opened.writeAll seen).chain.length) →
        (opened.writeAll during).removeTip = some (b, after) →
        after.chain.length = l.chain.length →
          ∀ param, (∀ b' after', opened.Removes (during ++ [.removeTip]) b' after' →
              ∀ c ∈ b'.paramChanges, c.param = param → c ∉ l.paramChanges) →
            ∀ height, after.paramValue param height = l.paramValue param height := by
  intro l
  refine ⟨paramChanges_sublist g ws, recorded_run_iff (recorded_new g) ws, ?_⟩
  intro raw opened during b after hs hlong hr hlen param hparam
  obtain ⟨-, -, rfl⟩ := start_eq_ok.1 hs
  have hbefore : Atop param l ((l.opened raw).writeAll during) :=
    (Atop.opened l raw).writeAll (fun seen hs _ => hlong seen hs) fun b' after' hr' =>
      hparam b' after' (removes_append_one.2 (.inl hr'))
  have hafter : Atop param l after :=
    hbefore.removeTip (hlong during (List.prefix_refl _)) hr
      (hparam b after (removes_append_one.2 (.inr ⟨rfl, hr⟩)))
  exact hafter.paramValue_eq hlen

def sampleFee (fee : Nat) : Write := .addEvent (.paramChange ⟨.proposalFee, fee, 20⟩)

def sampleRepeat : List Write :=
  [sampleFee 400, .start { Sample.second with height := 12, hash := ⟨"c"⟩, previousHash := ⟨"b"⟩ },
    sampleFee 400, .removeTip]

theorem recorded_sampleRepeat :
    let l := (Ledger.new Sample.genesis).writeAll [.start Sample.first, sampleFee 300]
    let tall := (l.opened Sample.second).writeAll sampleRepeat
    ¬tall.Recorded ∧ tall.paramValue .proposalFee 20 = 300 ∧
      ∃ b after, tall.removeTip = some (b, after) ∧
        ∀ height, after.paramValue .proposalFee height = l.paramValue .proposalFee height := by
  intro l tall
  have hs : l.start Sample.second = .ok (l.opened Sample.second) :=
    start_eq_ok.2 ⟨by decide +kernel, by decide +kernel, rfl⟩
  have hlong : ∀ n < 5, l.chain.length <
      ((l.opened Sample.second).writeAll (sampleRepeat.take n)).chain.length := by decide +kernel
  have hdropped : ∀ n < 5, ∀ r ∈ ((l.opened Sample.second).writeAll
      ((sampleRepeat ++ [Write.removeTip]).take n)).removeTip,
        ∀ c ∈ r.1.paramChanges, c ∉ l.paramChanges := by decide +kernel
  obtain ⟨⟨b, after⟩, hr⟩ := Option.isSome_iff_exists.1
    (by decide +kernel : tall.removeTip.isSome)
  have hlen : ∀ r ∈ tall.removeTip, r.2.chain.length = l.chain.length := by decide +kernel
  obtain ⟨-, -, hvalues⟩ :=
    recorded_iff_unrepeated Sample.genesis [.start Sample.first, sampleFee 300]
  refine ⟨by decide +kernel, by decide +kernel, b, after, hr, ?_⟩
  refine hvalues _ _ _ b after hs (fun seen hseen => ?_) hr (hlen (b, after) hr) _ ?_
  · rw [List.prefix_iff_eq_take.1 hseen]
    exact hlong _ (Nat.lt_succ_of_le hseen.length_le)
  · rintro b' after' ⟨seen, hseen, hr'⟩ c hc -
    have hlt : seen.length < 5 := Nat.lt_of_succ_le (by simpa [sampleRepeat] using hseen.length_le)
    rw [List.prefix_iff_eq_take.1 ((List.prefix_append ..).trans hseen)] at hr'
    exact hdropped _ hlt (b', after') hr' c hc

/-- A change that a removed block repeats is forgotten although the block that recorded it first is
still there, and the param falls back. -/
theorem repeated_change_is_forgotten :
    let before := (Ledger.new Sample.genesis).writeAll [.start Sample.first, sampleFee 300]
    let after := before.writeAll [.start Sample.second, sampleFee 300, .removeTip]
    ¬after.Recorded ∧ after.chain = before.chain ∧ after.paramChanges = [] ∧
      before.paramValue .proposalFee 20 = 300 ∧ after.paramValue .proposalFee 20 = 200 := by
  decide +kernel

end Ledger

end DaoLedger
