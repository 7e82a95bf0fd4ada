import DaoLedger.Proofs.Founding
import DaoLedger.Proofs.Tiling
/-!
Why a block is refused. Main statement: after any run a block is refused just when one of a list of
conditions holds, with the error of the first that does. Its header does not follow the chain, or
one of its transactions claims to be the genesis transaction and is not right, or spends BSQ under
an id that is taken. Payloads, fees, phases and the layout of outputs refuse no block.
-/
namespace DaoLedger

/-! ### Complaints -/

structure Complaint where
  holds : Prop
  error : ParseError

inductive FirstOf : List Complaint → ParseError → Prop
  | here {c : Complaint} {cs : List Complaint} : c.holds → FirstOf (c :: cs) c.error
  | later {c : Complaint} {cs : List Complaint} {e : ParseError} :
    ¬c.holds → FirstOf cs e → FirstOf (c :: cs) e

section
variable {c : Complaint} {cs ds : List Complaint} {e : ParseError}

theorem firstOf_cons_of_holds (h : c.holds) : FirstOf (c :: cs) e ↔ c.error = e := by
  constructor
  · rintro (- | ⟨hnot, -⟩)
    · rfl
    · exact absurd h hnot
  · rintro rfl
    exact .here h

theorem firstOf_cons_of_not_holds (h : ¬c.holds) : FirstOf (c :: cs) e ↔ FirstOf cs e := by
  constructor
  · rintro (hc | ⟨-, hrest⟩)
    · exact absurd hc h
    · exact hrest
  · exact .later h

theorem not_firstOf_nil : ¬FirstOf [] e := nofun

theorem exists_firstOf_iff : (∃ e, FirstOf cs e) ↔ ∃ c ∈ cs, c.holds := by
  induction cs with
  | nil => simp [not_firstOf_nil]
  | cons c cs ih =>
    by_cases h : c.holds
    · simp [firstOf_cons_of_holds h, h]
    · simp [firstOf_cons_of_not_holds h, h, ih]

/-- An outcome fails just if a complaint holds, and with the error of the first that does. -/
def Decides {α : Type} (cs : List Complaint) (outcome : Except ParseError α) : Prop :=
  ∀ e, outcome = .error e ↔ FirstOf cs e

theorem Decides.of_holds {α : Type} (h : c.holds) :
    Decides (c :: cs) (.error c.error : Except ParseError α) := fun e => by
  rw [firstOf_cons_of_holds h, Except.error.injEq]

theorem decides_of_not_holds {α : Type} {outcome : Except ParseError α} (h : ¬c.holds) :
    Decides (c :: cs) outcome ↔ Decides cs outcome :=
  forall_congr' fun _ => by rw [firstOf_cons_of_not_holds h]

theorem decides_nil {α : Type} (a : α) : Decides [] (.ok a) := fun _ =>
  iff_of_false nofun not_firstOf_nil

theorem Decides.bind {α β : Type} {first : Except ParseError α} {rest : α → Except ParseError β}
    (hfirst : Decides cs first) (hrest : ∀ a, first = .ok a → Decides ds (rest a)) :
    Decides (cs ++ ds) (first >>= rest) := by
  induction cs with
  | nil =>
    cases first with
    | error e => exact absurd ((hfirst e).1 rfl) not_firstOf_nil
    | ok a => exact hrest a rfl
  | cons c cs ih =>
    by_cases h : c.holds
    · rw [(hfirst c.error).2 (.here h)]
      exact .of_holds h
    · exact (decides_of_not_holds h).2 (ih ((decides_of_not_holds h).1 hfirst))

end

/-! ### What is complained about -/

namespace Ledger
variable {l : Ledger} {raw : RawBlock} {tx : RawTx} {height : UInt32} {c : Classified}

def Stores (l : Ledger) (id : TxId) : Prop := id ∈ l.storedTxs.map Tx.id

/-- Against a header: the block is stored, or it does not follow the genesis height and the tip. -/
def headerComplaints (l : Ledger) (raw : RawBlock) : List Complaint :=
  ⟨∃ b ∈ l.blocks, b.height = raw.height ∧ b.hash = raw.hash, .alreadyParsed raw.height⟩ ::
  ⟨raw.height < l.genesis.blockHeight,
    .ledger (.beforeGenesis raw.height l.genesis.blockHeight)⟩ ::
  match l.tip? with
  | none => []
  | some tip =>
    [⟨raw.height ≤ tip.height, .ledger (.heightNotIncreasing raw.height tip.height)⟩,
      ⟨raw.previousHash ≠ tip.hash,
        .ledger (.notConnecting raw.height tip.hash raw.previousHash)⟩]

/-- Against a transaction: the claimed genesis transaction has the wrong sum, stands at the wrong
height or is stored, or another one spends BSQ and is stored. -/
def txComplaints (l : Ledger) (height : UInt32) (tx : RawTx) : List Complaint :=
  let supply := l.genesis.totalSupply.toNat
  if l.genesis.names tx then
    [⟨tx.outputSum < supply, .invalidGenesis (.tooLittle (supply - tx.outputSum))⟩,
      ⟨supply < tx.outputSum, .invalidGenesis (.tooMuch (tx.outputSum - supply))⟩,
      ⟨tx.blockHeight ≠ height, .ledger (.heightMismatch tx.id tx.blockHeight height)⟩,
      ⟨l.Stores tx.id, .ledger (.duplicateTx tx.id)⟩]
  else [⟨l.hasBsqInput tx.inputs ∧ l.Stores tx.id, .ledger (.duplicateTx tx.id)⟩]

/-- Against transactions in order, each of them with the earlier ones entered. -/
def txsComplaints (l : Ledger) (height : UInt32) : List RawTx → List Complaint
  | [] => []
  | tx :: txs =>
    l.txComplaints height tx ++ (l.parseTxs height [tx]).ledger.txsComplaints height txs

/-- Where opening the block has no end, its transactions are not looked at. -/
def complaints (l : Ledger) (raw : RawBlock) : List Complaint :=
  l.headerComplaints raw ++
    if l.endless raw then [] else (l.opened raw).txsComplaints raw.height raw.txs

/-! ### Headers -/

def Ascending (l : Ledger) : Prop := (l.chain.map (·.height)).Pairwise (· > ·)

theorem Ascending.keeps (cs : List Change) : Keeps cs Ascending where
  opened _ _ _ hm h := heights_opened h hm
  adopted l _ _ c _ _ _ _ _ h := by
    have hheights := map_height_modifyHead l.chain (fun tip =>
      { tip with txs := tip.txs ++ [c.tx], events := tip.events ++ c.event.toList }) fun _ => rfl
    rwa [Ascending, adopted, hheights]
  removed _ _ _ hr h := heights_removeTip h hr
  noted l _ _ ha h := by
    obtain ⟨hrange, -, rfl⟩ := addEvent_eq_ok.1 ha
    rwa [Ascending, (sameTimes_noted l hrange).heights]
  issued _ _ _ _ ha h := by
    obtain ⟨-, rfl⟩ := addIssuance_eq_ok.1 ha
    exact h

theorem Ascending.containsBlock_iff (h : l.Ascending) {hash : BlockHash} :
    l.containsBlock height hash ↔ ∃ b ∈ l.blocks, b.height = height ∧ b.hash = hash := by
  simp only [containsBlock, Option.any_eq_true, blockAt?_eq_some h, decide_eq_true_eq, blocks,
    List.mem_reverse, and_assoc]

def headed (l : Ledger) (raw : RawBlock) : Except ParseError Unit :=
  if l.containsBlock raw.height raw.hash then .error (.alreadyParsed raw.height)
  else
    match l.misfit? raw with
    | some e => .error (.ledger e)
    | none => .ok ()

theorem headed_eq_ok : l.headed raw = .ok () ↔ l.Fits raw := by
  unfold headed Fits
  cases l.containsBlock raw.height raw.hash with
  | true => simp
  | false => cases l.misfit? raw <;> simp

theorem apply_of_headed {e : ParseError} (h : l.headed raw = .error e) :
    l.apply raw = (l, .error e) := by
  unfold headed at h
  unfold Ledger.apply Ledger.parse Ledger.start
  by_cases hb : l.containsBlock raw.height raw.hash
  · rw [if_pos hb] at h ⊢
    cases h
    simp only [settle, cutTo_length, Result.ofExcept]
  · rw [if_neg hb] at h ⊢
    cases hm : l.misfit? raw with
    | none => simp [hm] at h
    | some e' =>
      rw [hm] at h
      cases h
      simp only [settle, cutTo_length, Result.ofExcept]

theorem decides_headed (h : l.Ascending) : Decides (l.headerComplaints raw) (l.headed raw) := by
  unfold headed
  by_cases hstored : l.containsBlock raw.height raw.hash
  · rw [if_pos hstored]
    exact .of_holds (h.containsBlock_iff.1 hstored)
  rw [if_neg hstored]
  refine (decides_of_not_holds (mt h.containsBlock_iff.2 hstored)).2 ?_
  unfold misfit?
  by_cases hlow : raw.height < l.genesis.blockHeight
  · rw [if_pos hlow]
    exact .of_holds hlow
  rw [if_neg hlow]
  refine (decides_of_not_holds hlow).2 ?_
  rw [tip?]
  cases l.chain with
  | nil => exact decides_nil _
  | cons tip older =>
    dsimp only [List.head?_cons]
    by_cases hheight : raw.height ≤ tip.height
    · rw [if_pos hheight]
      exact .of_holds hheight
    rw [if_neg hheight]
    refine (decides_of_not_holds hheight).2 ?_
    by_cases hprevious : raw.previousHash ≠ tip.hash
    · rw [if_pos hprevious]
      exact .of_holds hprevious
    rw [if_neg hprevious]
    exact (decides_of_not_holds hprevious).2 (decides_nil _)

/-! ### Transactions -/

/-- The ledger is ready for transactions of a block at `height`. -/
structure Open (height : UInt32) (l : Ledger) : Prop where
  traced : l.Traced
  tip : l.tip?.map (·.height) = some height

theorem Open.adopted (h : l.Open height) (ht : l.Takes c.tx) : (l.adopted c).Open height := by
  obtain ⟨tip, htip, hheight⟩ := Option.map_eq_some_iff.1 h.tip
  obtain ⟨older, hc⟩ := List.head?_eq_some_iff.1 htip
  refine ⟨h.traced.adopted ht, ?_⟩
  rw [tip?, tip_adopted hc]
  exact congrArg some hheight

theorem Open.parseTxs (h : l.Open height) (txs : List RawTx) :
    (l.parseTxs height txs).ledger.Open height :=
  parseTxs_induction h fun _ _ _ _ h _ _ ht => h.adopted ht

theorem outcome_cons (l : Ledger) (height : UInt32) (tx : RawTx) (txs : List RawTx) :
    (l.parseTxs height (tx :: txs)).outcome = (l.parseTxs height [tx]).outcome >>= fun _ =>
      ((l.parseTxs height [tx]).ledger.parseTxs height txs).outcome := by
  simp only [Ledger.parseTxs]
  cases l.classify tx height with
  | error fault => rfl
  | ok c =>
    dsimp only
    obtain ⟨l', e | _⟩ := l.enter c
    · rfl
    · rfl

theorem outcome_one (hc : l.classify tx height = .ok c) :
    (l.parseTxs height [tx]).outcome = (l.enter c).2 := by
  simp only [Ledger.parseTxs, hc]
  obtain ⟨l', e | _⟩ := l.enter c
  · rfl
  · rfl

theorem decides_enter (h : l.Open height) (hb : c.isBsq)
    (he : ∀ event, c.event = some event → event.paramChange? = none) :
    Decides [⟨c.tx.blockHeight ≠ height,
        .ledger (.heightMismatch c.tx.id c.tx.blockHeight height)⟩,
      ⟨l.Stores c.tx.id, .ledger (.duplicateTx c.tx.id)⟩] (l.enter c).2 := by
  obtain ⟨tip, htip, rfl⟩ := Option.map_eq_some_iff.1 h.tip
  obtain ⟨older, hc⟩ := List.head?_eq_some_iff.1 htip
  have herror {e : LedgerError} (ha : l.addTx c.tx = .error e) :
      (l.enter c).2 = .error (.ledger e) := by
    simp only [enter, hb, ha, if_true]
  by_cases hheight : c.tx.blockHeight ≠ tip.height
  · rw [herror (by rw [addTx, hc]; exact if_pos hheight)]
    exact .of_holds hheight
  refine (decides_of_not_holds hheight).2 ?_
  by_cases hstored : l.Stores c.tx.id
  · have hmem : c.tx.id ∈ l.txs := (h.traced.txs _).2 hstored
    rw [herror (by rw [addTx, hc]; exact (if_neg hheight).trans (if_pos hmem))]
    exact .of_holds hstored
  · have htakes : l.Takes c.tx := ⟨⟨tip, htip, not_not.1 hheight⟩, mt (h.traced.txs _).1 hstored⟩
    rw [enter_of_takes hb htakes he]
    exact (decides_of_not_holds hstored).2 (decides_nil ())

theorem isBsq_classifySpending (l : Ledger) (tx : RawTx) (height : UInt32) :
    (l.classifySpending (tx.placed height)).isBsq :=
  decide_eq_true fun htype => (type_classifySpending (by decide)).1 htype

theorem height_classifySpending (l : Ledger) (tx : RawTx) (height : UInt32) :
    (l.classifySpending (tx.placed height)).tx.blockHeight = height :=
  congrArg RawTx.blockHeight (l.spends_classifySpending (tx.placed height)).raw

theorem decides_genesis (h : l.Open height) (hg : l.genesis.names tx) :
    Decides (l.txComplaints height tx) (l.parseTxs height [tx]).outcome := by
  have hfault {fault : GenesisFault} (hf : l.genesis.find? tx = .error fault) :
      (l.parseTxs height [tx]).outcome = .error (.invalidGenesis fault) := by
    simp only [Ledger.parseTxs, classify, hf]
  rw [txComplaints, if_pos hg]
  by_cases hlow : tx.outputSum < l.genesis.totalSupply.toNat
  · rw [hfault (by rw [Genesis.find?, if_pos hg]; exact if_pos hlow)]
    exact .of_holds hlow
  refine (decides_of_not_holds hlow).2 ?_
  by_cases hhigh : l.genesis.totalSupply.toNat < tx.outputSum
  · rw [hfault (by rw [Genesis.find?, if_pos hg]; exact (if_neg hlow).trans (if_pos hhigh))]
    exact .of_holds hhigh
  refine (decides_of_not_holds hhigh).2 ?_
  have hsum : tx.outputSum = l.genesis.totalSupply.toNat := by omega
  have hc : l.classify tx height = .ok ⟨tx.genesis, none, none⟩ :=
    classify_eq_ok.2 (.inl ⟨hg, hsum, rfl⟩)
  rw [outcome_one hc]
  exact decides_enter h rfl (by simp)

theorem decides_ordinary (h : l.Open height) (hg : ¬l.genesis.names tx) :
    Decides (l.txComplaints height tx) (l.parseTxs height [tx]).outcome := by
  rw [txComplaints, if_neg hg]
  by_cases hb : l.hasBsqInput tx.inputs
  · have hc : l.classify tx height = .ok (l.classifySpending (tx.placed height)) :=
      classify_eq_ok.2 (.inr (.inl ⟨hg, hb, rfl⟩))
    have hheight := l.height_classifySpending tx height
    rw [outcome_one hc, ← id_of_classify hc]
    simp only [hb, true_and]
    exact (decides_of_not_holds (not_not.2 hheight)).1
      (decides_enter h (l.isBsq_classifySpending tx height) fun _ => event_of_classify hc)
  · have hc : l.classify tx height = .ok ⟨(tx.placed height).undefined, none, none⟩ :=
      classify_eq_ok.2 (.inr (.inr ⟨hg, hb, rfl⟩))
    have hnot : ¬(l.hasBsqInput tx.inputs ∧ l.Stores tx.id) := fun hholds => hb hholds.1
    rw [outcome_one hc]
    exact (decides_of_not_holds hnot).2 (decides_nil ())

theorem decides_tx (h : l.Open height) (tx : RawTx) :
    Decides (l.txComplaints height tx) (l.parseTxs height [tx]).outcome := by
  by_cases hg : l.genesis.names tx
  · exact decides_genesis h hg
  · exact decides_ordinary h hg

theorem decides_txs (h : l.Open height) (txs : List RawTx) :
    Decides (l.txsComplaints height txs) (l.parseTxs height txs).outcome := by
  induction txs generalizing l with
  | nil => exact decides_nil ()
  | cons tx txs ih =>
    rw [outcome_cons]
    exact (decides_tx h tx).bind fun _ _ => ih (h.parseTxs [tx])

/-! ### Blocks -/

theorem Open.opened (h : l.Traced) (raw : RawBlock) : (l.opened raw).Open raw.height :=
  ⟨h.opened raw, rfl⟩

theorem error_apply (l : Ledger) (raw : RawBlock) (e : ParseError) :
    (l.apply raw).2 = .error e ↔ (l.headed raw >>= fun _ =>
      if l.endless raw then .ok () else (l.attempted raw).outcome) = .error e := by
  cases hh : l.headed raw with
  | error e' =>
    rw [apply_of_headed hh]
    exact iff_of_eq (by simp [bind, Except.bind])
  | ok u =>
    have hf := headed_eq_ok.1 hh
    by_cases he : l.endless raw
    · simp [apply_of_endless hf he, he, bind, Except.bind]
    · have hopens : l.Opens raw := ⟨hf, by simpa using he⟩
      cases ho : (l.attempted raw).outcome with
      | ok u =>
        obtain ⟨b, -, happly⟩ := apply_of_ok hopens ho
        simp [happly, he, bind, Except.bind]
      | error e' => simp [apply_of_fail hopens ho, he, bind, Except.bind]

theorem decides_apply (ht : l.Traced) (ha : l.Ascending) (e : ParseError) :
    (l.apply raw).2 = .error e ↔ FirstOf (l.complaints raw) e := by
  rw [error_apply]
  refine (decides_headed ha).bind (fun _ _ => ?_) e
  by_cases he : l.endless raw
  · rw [if_pos he, if_pos he]
    exact decides_nil ()
  · rw [if_neg he, if_neg he]
    exact decides_txs (.opened ht raw) raw.txs

theorem headed_eq_ok_iff (ha : l.Ascending) :
    l.headed raw = .ok () ↔ ∀ c ∈ l.headerComplaints raw, ¬c.holds := by
  have hexists : (∃ e, l.headed raw = .error e) ↔ ∃ c ∈ l.headerComplaints raw, c.holds :=
    (exists_congr (decides_headed ha)).trans exists_firstOf_iff
  constructor
  · intro hok c hc hholds
    obtain ⟨e, he⟩ := hexists.2 ⟨c, hc, hholds⟩
    cases hok.symm.trans he
  · intro hnone
    cases hh : l.headed raw with
    | ok u => rfl
    | error e =>
      obtain ⟨c, hc, hholds⟩ := hexists.1 ⟨e, hh⟩
      exact absurd hholds (hnone c hc)

theorem never_apply (ha : l.Ascending) :
    (l.apply raw).2 = .never ↔ l.endless raw ∧ ∀ c ∈ l.headerComplaints raw, ¬c.holds := by
  rw [apply_eq_never, ← headed_eq_ok, headed_eq_ok_iff ha, and_comm]

end Ledger

/-! ### What refuses no block -/

/-- Two transactions with one id, one claimed height and the same inputs; and with one sum if they
claim to be the genesis transaction. Their payloads and outputs may differ. -/
structure Genesis.Counterparts (g : Genesis) (tx tx' : RawTx) : Prop where
  id : tx.id = tx'.id
  height : tx.blockHeight = tx'.blockHeight
  inputs : tx.inputs = tx'.inputs
  sum : g.names tx → tx.outputSum = tx'.outputSum

namespace Ledger
variable {l : Ledger} {height : UInt32}

theorem txComplaints_congr {tx tx' : RawTx} (h : l.genesis.Counterparts tx tx') :
    l.txComplaints height tx = l.txComplaints height tx' := by
  have hnames : l.genesis.names tx' = l.genesis.names tx := by
    rw [Genesis.names, Genesis.names, h.id, h.height]
  unfold txComplaints
  by_cases hg : l.genesis.names tx
  · rw [if_pos hg, if_pos (hnames.trans hg), h.sum hg, h.id, h.height]
  · rw [if_neg hg, if_neg (hnames ▸ hg), h.inputs, h.id]

theorem genesis_parseTxs (l : Ledger) (height : UInt32) (txs : List RawTx) :
    (l.parseTxs height txs).ledger.genesis = l.genesis :=
  parseTxs_induction (P := fun m => m.genesis = l.genesis) rfl fun _ _ _ _ h _ _ _ => h

theorem txsComplaints_congr {tx tx' : RawTx} (h : l.genesis.Counterparts tx tx')
    (before : List RawTx) :
    l.txsComplaints height (before ++ [tx]) = l.txsComplaints height (before ++ [tx']) := by
  induction before generalizing l with
  | nil =>
    rw [List.nil_append, List.nil_append, txsComplaints, txsComplaints, txComplaints_congr h]
    rfl
  | cons t before ih =>
    have hgenesis := genesis_parseTxs l height [t]
    rw [List.cons_append, List.cons_append, txsComplaints, txsComplaints, ih (hgenesis ▸ h)]

/-- After any run a block is refused just if a complaint holds, with the error of the first that
does, and it is neither refused nor accepted just if it follows the tip and opening it has no end.
What a block is refused for at its last transaction does not depend on payloads or outputs. -/
theorem refused_iff_complaint (g : Genesis) (cs : List Change) (raw : RawBlock) :
    let l := (Ledger.new g).changeAll cs
    ((∃ e, (l.apply raw).2 = .error e) ↔ ∃ c ∈ l.complaints raw, c.holds) ∧
      (∀ e, (l.apply raw).2 = .error e ↔ FirstOf (l.complaints raw) e) ∧
      ((l.apply raw).2 = .never ↔ l.endless raw ∧ ∀ c ∈ l.headerComplaints raw, ¬c.holds) ∧
      ∀ before tx tx', g.Counterparts tx tx' → ∀ e,
        (l.apply { raw with txs := before ++ [tx] }).2 = .error e ↔
          (l.apply { raw with txs := before ++ [tx'] }).2 = .error e := by
  intro l
  have hfounded : Founded g l := (Founded.keeps g cs).changeAll (.new g)
  have hascending : l.Ascending := (Ascending.keeps cs).changeAll .nil
  have hdecides (raw : RawBlock) (e : ParseError) :
      (l.apply raw).2 = .error e ↔ FirstOf (l.complaints raw) e :=
    decides_apply hfounded.traced hascending e
  refine ⟨?_, hdecides raw, never_apply hascending, fun before tx tx' h e => ?_⟩
  · rw [← exists_firstOf_iff]
    exact exists_congr (hdecides raw)
  · have hl : (l.opened raw).genesis.Counterparts tx tx' := hfounded.genesis.symm ▸ h
    have hsame : l.complaints { raw with txs := before ++ [tx] } =
        l.complaints { raw with txs := before ++ [tx'] } :=
      congrArg (fun cs => l.headerComplaints raw ++ if l.endless raw then [] else cs)
        (txsComplaints_congr hl before)
    exact (hdecides _ e).trans (hsame ▸ (hdecides _ e).symm)

theorem refused_sampleClash :
    let l := (Ledger.new Sample.genesis).changeAll [.apply Sample.first]
    let repeated : RawTx := { Sample.payment with inputs := [Sample.input "r" 0] }
    let malformed : RawTx :=
      { repeated with outputs := [{ Sample.output "p" 0 900 with payload := some [0x11] }] }
    let e : ParseError := .ledger (.duplicateTx ⟨"p"⟩)
    Sample.genesis.Counterparts repeated malformed ∧ (l.apply Sample.clash).2 = .error e ∧
      FirstOf (l.complaints Sample.clash) e ∧
      (l.apply { Sample.clash with txs := [Sample.payment, malformed] }).2 = .error e := by
  intro l repeated malformed e
  have h : Sample.genesis.Counterparts repeated malformed :=
    ⟨rfl, rfl, rfl, fun hg => absurd hg (by decide)⟩
  have he : (l.apply Sample.clash).2 = .error e := by decide +kernel
  obtain ⟨-, hfirst, -, hsame⟩ :=
    refused_iff_complaint Sample.genesis [.apply Sample.first] Sample.clash
  exact ⟨h, he, (hfirst e).1 he, (hsame [Sample.payment] repeated malformed h e).1 he⟩

end Ledger
end DaoLedger
