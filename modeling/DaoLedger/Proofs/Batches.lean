import DaoLedger.Proofs.Amounts
import DaoLedger.Proofs.History
import DaoLedger.Proofs.Opening
/-!
The executor as one sequence of attempts. Main statement: a queue of single blocks and batches is
worked off by applying blocks one after the other, where a batch is cut behind its first block that
fails, and answers and metrics are those of these attempts. The queue stands still at a block whose
opening has no end: neither it nor what comes after it is answered. Below the height limit there is
no such block.
-/
namespace DaoLedger

/-! ### Attempts -/

/-- A block that was tried, the ledger that it found, and what came of it. -/
structure Trial where
  found : Ledger
  raw : RawBlock
  result : Result NodeError Block

/-- Whether a block was refused. A task that breaks off refuses nothing. -/
def Trial.refused (t : Trial) : Bool :=
  match t.result with
  | .error (.parse _) => true
  | _ => false

def committed (trials : List Trial) : List Block := trials.filterMap (·.result.toOption)

def rejected (trials : List Trial) : List Trial := trials.filter Trial.refused

theorem committed_append (trials more : List Trial) :
    committed (trials ++ more) = committed trials ++ committed more :=
  List.filterMap_append

theorem rejected_append (trials more : List Trial) :
    rejected (trials ++ more) = rejected trials ++ rejected more :=
  List.filter_append ..

theorem Ledger.chain_apply (l : Ledger) (raw : RawBlock) :
    (l.apply raw).1.chain = (l.apply raw).2.toOption.toList ++ l.chain := by
  by_cases hf : l.Opens raw
  · cases ho : (l.attempted raw).outcome with
    | ok u =>
      obtain ⟨b, hc, happly⟩ := apply_of_ok hf ho
      rw [happly, hc]
      rfl
    | error e =>
      have he : l.Extends raw (l.attempted raw).ledger := extends_parseTxs l raw raw.txs
      obtain ⟨txs, events, hc, -⟩ := he.chain
      cases hr : (l.attempted raw).ledger.removeTip with
      | none => simp [removeTip, hc] at hr
      | some removed =>
        obtain ⟨older, hc', hchain, -⟩ := removeTip_rest hr
        obtain ⟨-, rfl⟩ := List.cons.inj (hc.symm.trans hc')
        rw [apply_of_fail hf ho, he.cutTo_eq hr]
        exact hchain
  · rcases apply_of_not_opens hf with ⟨e, -, he⟩ | hnever
    · rw [he]
      rfl
    · rw [hnever]
      rfl

structure Metrics.Count (m : Metrics) (trials : List Trial) (m' : Metrics) : Prop where
  blocksApplied : m'.blocksApplied = m.blocksApplied + UInt64.ofNat (committed trials).length
  bsqTxsApplied : m'.bsqTxsApplied =
    m.bsqTxsApplied + UInt64.ofNat (total ((committed trials).map (·.txs.length)))
  blocksRejected : m'.blocksRejected = m.blocksRejected + UInt64.ofNat (rejected trials).length
  chainHeight : m'.chainHeight =
    ((committed trials).getLast?.map fun b => Int64.ofNat b.height.toNat).getD m.chainHeight

namespace Metrics.Count
variable {m m' m'' : Metrics} {trials more : List Trial}

theorem refl (m : Metrics) : m.Count [] m := by
  constructor <;> simp [committed, rejected, total]

theorem trans (h : m.Count trials m') (h' : m'.Count more m'') :
    m.Count (trials ++ more) m'' where
  blocksApplied := by
    rw [h'.blocksApplied, h.blocksApplied, committed_append, List.length_append, UInt64.ofNat_add,
      UInt64.add_assoc]
  bsqTxsApplied := by
    rw [h'.bsqTxsApplied, h.bsqTxsApplied, committed_append, List.map_append, total_append,
      UInt64.ofNat_add, UInt64.add_assoc]
  blocksRejected := by
    rw [h'.blocksRejected, h.blocksRejected, rejected_append, List.length_append,
      UInt64.ofNat_add, UInt64.add_assoc]
  chainHeight := by
    rw [h'.chainHeight, h.chainHeight, committed_append, List.getLast?_append]
    cases (committed more).getLast? <;> rfl

theorem of_uncounted {t : Trial} (hc : committed [t] = []) (hr : rejected [t] = []) :
    m.Count [t] m := by
  constructor <;> simp [hc, hr, total]

end Metrics.Count

namespace Executor

def task (x : Executor) (l : Ledger) (raw : RawBlock) : Ledger × Result NodeError Block :=
  match x.broken? l raw with
  | some (ledger, cause) => (ledger, .error (.parseTask cause))
  | none => ((l.apply raw).1, (l.apply raw).2.mapError .parse)

def left (x : Executor) (l : Ledger) (raws : List RawBlock) : Ledger :=
  raws.foldl (fun l raw => (x.task l raw).1) l

def trials (x : Executor) (l : Ledger) : List RawBlock → List Trial
  | [] => []
  | raw :: raws => ⟨l, raw, (x.task l raw).2⟩ :: x.trials (x.task l raw).1 raws

section
variable {x x' : Executor} {l : Ledger} {raw : RawBlock} {raws more : List RawBlock}

theorem task_congr (h : x'.broken? = x.broken?) : x'.task = x.task := by
  funext l raw
  rw [task, task, h]

theorem left_congr (h : x'.broken? = x.broken?) : x'.left = x.left := by
  funext l raws
  rw [left, left, task_congr h]

theorem trials_congr (h : x'.broken? = x.broken?) (l : Ledger) (raws : List RawBlock) :
    x'.trials l raws = x.trials l raws := by
  induction raws generalizing l with
  | nil => rfl
  | cons raw raws ih => rw [trials, trials, ih, task_congr h]

theorem trials_append (x : Executor) (l : Ledger) (raws more : List RawBlock) :
    x.trials l (raws ++ more) = x.trials l raws ++ x.trials (x.left l raws) more := by
  induction raws generalizing l with
  | nil => rfl
  | cons raw raws ih => exact congrArg (⟨l, raw, (x.task l raw).2⟩ :: ·) (ih _)

theorem left_append (x : Executor) (l : Ledger) (raws more : List RawBlock) :
    x.left l (raws ++ more) = x.left (x.left l raws) more :=
  List.foldl_append

theorem result_of_mem {t : Trial} (h : t ∈ x.trials l raws) :
    t.result = (x.task t.found t.raw).2 := by
  induction raws generalizing l with
  | nil => cases h
  | cons raw raws ih =>
    rcases List.mem_cons.1 h with rfl | h
    · rfl
    · exact ih h

theorem task_of_unbroken (hx : x.Unbroken) (l : Ledger) (raw : RawBlock) :
    x.task l raw = ((l.apply raw).1, (l.apply raw).2.mapError .parse) := by
  simp only [task, hx l raw]

theorem left_of_unbroken (hx : x.Unbroken) (l : Ledger) (raws : List RawBlock) :
    x.left l raws = l.applyAll raws := by
  unfold left Ledger.applyAll
  simp only [task_of_unbroken hx]

theorem chain_left (hx : x.Unbroken) (l : Ledger) (raws : List RawBlock) :
    (x.left l raws).chain = (committed (x.trials l raws)).reverse ++ l.chain := by
  induction raws generalizing l with
  | nil => rfl
  | cons raw raws ih =>
    have htask := task_of_unbroken hx l raw
    change (x.left (x.task l raw).1 raws).chain = _
    rw [ih, htask, Ledger.chain_apply, trials, htask, committed, committed, List.filterMap_cons,
      Result.toOption_mapError]
    cases (l.apply raw).2.toOption <;> simp

/-- A task has no end just where opening the block has none. -/
theorem task_eq_never : (x.task l raw).2 = .never ↔
    x.broken? l raw = none ∧ l.Fits raw ∧ ¬(l.opening raw).Dom := by
  rw [Ledger.opening_dom_iff_not_endless, Bool.not_eq_false, ← Ledger.apply_eq_never, task]
  cases x.broken? l raw with
  | some left => simp
  | none => simp [Result.mapError_eq_never]

end

/-- One executor comes from another by trials that follow each other. -/
structure Tries (x : Executor) (ts : List Trial) (x' : Executor) : Prop where
  trials : ts = x.trials x.ledger (ts.map Trial.raw)
  ledger : x'.ledger = x.left x.ledger (ts.map Trial.raw)
  metrics : x.metrics.Count ts x'.metrics
  stuck : x'.stuck = (x.stuck || ts.any (·.result.isNever))
  tasks : x'.broken? = x.broken?

namespace Tries
variable {x x' x'' : Executor} {ts more : List Trial}

theorem refl (x : Executor) : x.Tries [] x := ⟨rfl, rfl, .refl _, (Bool.or_false _).symm, rfl⟩

theorem trans (h : x.Tries ts x') (h' : x'.Tries more x'') : x.Tries (ts ++ more) x'' where
  trials := by
    rw [List.map_append, Executor.trials_append, ← h.ledger, ← h.trials, ← trials_congr h.tasks,
      ← h'.trials]
  ledger := by
    rw [h'.ledger, h.ledger, left_congr h.tasks, List.map_append, left_append]
  metrics := h.metrics.trans h'.metrics
  stuck := by rw [h'.stuck, h.stuck, List.any_append, Bool.or_assoc]
  tasks := h'.tasks.trans h.tasks

theorem ne_never (h : x.Tries ts x') (hs : x'.stuck = false) : ∀ t ∈ ts, t.result ≠ .never := by
  have hany := (Bool.or_eq_false_iff.1 (h.stuck.symm.trans hs)).2
  exact fun t ht hnever => List.any_eq_false.1 hany t ht (Result.isNever_eq_true.2 hnever)

end Tries

theorem count_counted (m : Metrics) (time : Float) (l : Ledger) (raw : RawBlock)
    (result : Result ParseError Block) :
    m.Count [⟨l, raw, result.mapError .parse⟩] (counted m time result) := by
  cases result with
  | ok b => exact ⟨rfl, rfl, (UInt64.add_zero _).symm, rfl⟩
  | error e => exact ⟨(UInt64.add_zero _).symm, (UInt64.add_zero _).symm, rfl, rfl⟩
  | never => exact .of_uncounted rfl rfl

theorem tries_parseOne (x : Executor) (raw : RawBlock) :
    x.Tries [⟨x.ledger, raw, (x.parseOne raw).2⟩] (x.parseOne raw).1 := by
  have htask : x.task x.ledger raw = ((x.parseOne raw).1.ledger, (x.parseOne raw).2) := by
    rw [task, parseOne]
    cases x.broken? x.ledger raw <;> rfl
  have htrials : [⟨x.ledger, raw, (x.parseOne raw).2⟩] = x.trials x.ledger [raw] := by
    rw [trials, trials, htask]
  refine ⟨htrials, congrArg Prod.fst htask.symm, ?_, ?_, ?_⟩ <;> rw [parseOne] <;>
    cases x.broken? x.ledger raw
  · exact count_counted ..
  · exact .of_uncounted rfl rfl
  · simp [Result.isNever_mapError]
  · exact (Bool.or_false _).symm
  · rfl
  · rfl

/-! ### Jobs -/

def Job.blocks : Job → List RawBlock
  | .block raw => [raw]
  | .batch raws => raws

inductive Job.Done : Job → List Trial → Reply → Prop where
  | block (t : Trial) : Done (.block t.raw) [t] (.block t.result)
  /-- No block of the batch fails. -/
  | whole (ts : List Trial) (bs : List Block) (h : ts.map Trial.result = bs.map .ok) :
    Done (.batch (ts.map Trial.raw)) ts (.batch bs (.ok ts.length))
  /-- The first block that fails is the last one that is tried. -/
  | cut (ts : List Trial) (bs : List Block) (h : ts.map Trial.result = bs.map .ok) (t : Trial)
    (e : NodeError) (ht : t.result = .error e) (rest : List RawBlock) :
    Done (.batch (ts.map Trial.raw ++ t.raw :: rest)) (ts ++ [t]) (.batch bs (.error e))
  /-- The batch does not come past a block whose opening has no end. -/
  | hung (ts : List Trial) (bs : List Block) (h : ts.map Trial.result = bs.map .ok) (t : Trial)
    (ht : t.result = .never) (rest : List RawBlock) :
    Done (.batch (ts.map Trial.raw ++ t.raw :: rest)) (ts ++ [t]) (.batch bs .never)

def Reply.Answered : Reply → Prop
  | .block result => result ≠ .never
  | .batch _ finished => finished ≠ .never

structure Turn where
  job : Job
  trials : List Trial
  reply : Reply

inductive BatchEvent where
  | parsed (b : Block)
  | finished (outcome : Except NodeError Nat)

def BatchEvent.closing : Result NodeError Nat → List BatchEvent
  | .ok count => [.finished (.ok count)]
  | .error e => [.finished (.error e)]
  | .never => []

/-- A batch as a loop that counts the blocks that were parsed and tells of each. -/
def tell (x : Executor) (parsed : Nat) : List RawBlock → Executor × List BatchEvent
  | [] => (x, [.finished (.ok parsed)])
  | raw :: raws =>
    match x.parseOne raw with
    | (x, .error e) => (x, [.finished (.error e)])
    | (x, .never) => (x, [])
    | (x, .ok b) =>
      let (x, events) := x.tell (parsed + 1) raws
      (x, .parsed b :: events)

namespace Job.Done
variable {job : Job} {ts : List Trial} {reply : Reply}

theorem cons {raws : List RawBlock} {parsed : List Block} {finished : Result NodeError Nat}
    (h : Job.Done (.batch raws) ts (.batch parsed finished)) {t : Trial} {b : Block}
    (ht : t.result = .ok b) :
    Job.Done (.batch (t.raw :: raws)) (t :: ts) (.batch (b :: parsed) (finished.map (· + 1))) := by
  have hcons {ts : List Trial} {bs : List Block} (hts : ts.map Trial.result = bs.map .ok) :
      (t :: ts).map Trial.result = (b :: bs).map .ok := by
    rw [List.map_cons, List.map_cons, ht, hts]
  cases h with
  | whole ts bs hts => exact .whole (t :: ts) _ (hcons hts)
  | cut ts bs hts last e hlast rest => exact .cut (t :: ts) _ (hcons hts) last e hlast rest
  | hung ts bs hts last hlast rest => exact .hung (t :: ts) _ (hcons hts) last hlast rest

theorem raw_mem (h : job.Done ts reply) : ∀ t ∈ ts, t.raw ∈ job.blocks := by
  have hlast {ts : List Trial} {t last : Trial} (ht : t ∈ ts ++ [last]) (rest : List RawBlock) :
      t.raw ∈ ts.map Trial.raw ++ last.raw :: rest := by
    rcases List.mem_append.1 ht with ht | ht
    · exact List.mem_append_left _ (List.mem_map_of_mem ht)
    · exact List.mem_append_right _ (List.mem_singleton.1 ht ▸ List.mem_cons_self)
  intro t ht
  cases h with
  | block => exact List.mem_map_of_mem (f := Trial.raw) ht
  | whole => exact List.mem_map_of_mem ht
  | cut => exact hlast ht _
  | hung => exact hlast ht _

theorem ne_never_of_ok {bs : List Block} (h : ts.map Trial.result = bs.map .ok) :
    ∀ t ∈ ts, t.result ≠ .never := by
  intro t ht hnever
  obtain ⟨b, -, hb⟩ := List.mem_map.1 (h ▸ List.mem_map_of_mem (f := Trial.result) ht)
  rw [hnever] at hb
  cases hb

/-- Nothing is tried after a trial that has no end. -/
theorem ne_never_dropLast (h : job.Done ts reply) : ∀ t ∈ ts.dropLast, t.result ≠ .never := by
  cases h with
  | block t => exact fun _ ht => absurd ht List.not_mem_nil
  | whole ts bs hts => exact fun t ht => ne_never_of_ok hts t (List.mem_of_mem_dropLast ht)
  | cut ts bs hts last e hlast rest =>
    rw [List.dropLast_concat]
    exact ne_never_of_ok hts
  | hung ts bs hts last hlast rest =>
    rw [List.dropLast_concat]
    exact ne_never_of_ok hts

theorem answered (h : job.Done ts reply) (hts : ∀ t ∈ ts, t.result ≠ .never) :
    reply.Answered := by
  cases h with
  | block t => exact hts t List.mem_cons_self
  | whole => exact nofun
  | cut => exact nofun
  | hung ts bs hbs last hlast rest =>
    exact absurd hlast (hts last (List.mem_append_right _ List.mem_cons_self))

end Job.Done

section
variable {x : Executor}

theorem perform_of_stuck (h : x.stuck) (job : Job) : x.perform job = (x, job.unanswered) :=
  if_pos h

theorem perform_block (h : x.stuck = false) (raw : RawBlock) :
    x.perform (.block raw) = ((x.parseOne raw).1, .block (x.parseOne raw).2) := by
  rw [perform, h]
  rfl

theorem perform_batch (h : x.stuck = false) (raws : List RawBlock) :
    x.perform (.batch raws) = ((x.parseBatch raws).1,
      .batch (x.parseBatch raws).2.1 ((x.parseBatch raws).2.2.map fun () => raws.length)) := by
  rw [perform, h]
  rfl

theorem tell_eq (x : Executor) (parsed : Nat) (raws : List RawBlock) :
    x.tell parsed raws = ((x.parseBatch raws).1, (x.parseBatch raws).2.1.map .parsed ++
      BatchEvent.closing ((x.parseBatch raws).2.2.map fun () => parsed + raws.length)) := by
  induction raws generalizing x parsed with
  | nil => rfl
  | cons raw raws ih =>
    rw [tell, parseBatch_eq]
    rcases x.parseOne raw with ⟨y, b | e | -⟩
    · simp only [ih, List.length_cons, List.map_cons, List.cons_append, Nat.add_right_comm parsed 1,
        Nat.add_assoc]
    · rfl
    · rfl

theorem done_parseBatch (x : Executor) (raws : List RawBlock) :
    ∃ ts, Job.Done (.batch raws) ts (.batch (x.parseBatch raws).2.1
        ((x.parseBatch raws).2.2.map fun () => raws.length)) ∧
      x.Tries ts (x.parseBatch raws).1 := by
  induction raws generalizing x with
  | nil => exact ⟨[], .whole [] [] rfl, .refl x⟩
  | cons raw raws ih =>
    have hfirst := x.tries_parseOne raw
    let t : Trial := ⟨x.ledger, raw, (x.parseOne raw).2⟩
    rw [parseBatch_eq]
    cases hr : (x.parseOne raw).2 with
    | error e => exact ⟨[t], .cut [] [] rfl t e hr raws, hfirst⟩
    | never => exact ⟨[t], .hung [] [] rfl t hr raws, hfirst⟩
    | ok b =>
      obtain ⟨ts, hdone, hrest⟩ := ih (x.parseOne raw).1
      refine ⟨t :: ts, ?_, hfirst.trans hrest⟩
      have hcons := hdone.cons (t := t) hr
      rw [Result.map_map] at hcons
      exact hcons

theorem done_perform (h : x.stuck = false) (job : Job) :
    ∃ ts, job.Done ts (x.perform job).2 ∧ x.Tries ts (x.perform job).1 := by
  cases job with
  | block raw =>
    rw [perform_block h]
    exact ⟨_, .block ⟨x.ledger, raw, (x.parseOne raw).2⟩, x.tries_parseOne raw⟩
  | batch raws =>
    rw [perform_batch h]
    exact x.done_parseBatch raws

theorem run_of_stuck (h : x.stuck) (jobs : List Job) :
    x.run jobs = (x, jobs.map Job.unanswered) := by
  induction jobs with
  | nil => rfl
  | cons job jobs ih => simp only [run, perform_of_stuck h, ih, List.map_cons]

end

/-! ### Queues -/

/-- A queue is worked off in turns. What comes after a trial without end is left waiting. -/
structure WorksOff (x : Executor) (jobs : List Job) (worked waiting : List Turn) : Prop where
  submitted : (worked ++ waiting).map Turn.job = jobs
  answers : (worked ++ waiting).map Turn.reply = (x.run jobs).2
  done : ∀ t ∈ worked, t.job.Done t.trials t.reply
  unanswered : ∀ t ∈ waiting, t.trials = [] ∧ t.reply = t.job.unanswered
  tries : x.Tries (worked.flatMap Turn.trials) (x.run jobs).1
  last : ∀ t ∈ (worked.flatMap Turn.trials).dropLast, t.result ≠ .never
  stuck : x.stuck → worked = []
  waits : waiting ≠ [] → (x.run jobs).1.stuck

namespace WorksOff
variable {x : Executor} {job : Job} {jobs : List Job} {worked waiting : List Turn}
  {ts : List Trial}

theorem of_stuck (h : x.stuck) (jobs : List Job) :
    x.WorksOff jobs [] (jobs.map fun job => ⟨job, [], job.unanswered⟩) where
  submitted := by
    rw [List.nil_append, List.map_map]
    exact List.map_id _
  answers := by
    rw [List.nil_append, List.map_map, run_of_stuck h]
    rfl
  done := nofun
  unanswered t ht := by
    obtain ⟨job, -, rfl⟩ := List.mem_map.1 ht
    exact ⟨rfl, rfl⟩
  tries := by
    rw [run_of_stuck h]
    exact .refl x
  last := nofun
  stuck _ := rfl
  waits _ := by
    rw [run_of_stuck h]
    exact h

theorem cons (hx : x.stuck = false) (hdone : job.Done ts (x.perform job).2)
    (htries : x.Tries ts (x.perform job).1) (h : (x.perform job).1.WorksOff jobs worked waiting) :
    x.WorksOff (job :: jobs) (⟨job, ts, (x.perform job).2⟩ :: worked) waiting where
  submitted := congrArg (job :: ·) h.submitted
  answers := congrArg ((x.perform job).2 :: ·) h.answers
  done := List.forall_mem_cons.2 ⟨hdone, h.done⟩
  unanswered := h.unanswered
  tries := htries.trans h.tries
  last := by
    rw [List.flatMap_cons]
    cases hworked : worked with
    | nil =>
      rw [List.flatMap_nil, List.append_nil]
      exact hdone.ne_never_dropLast
    | cons t rest =>
      rw [← hworked]
      have hfree : (x.perform job).1.stuck = false := by
        rw [← Bool.not_eq_true]
        intro hs
        rw [h.stuck hs] at hworked
        cases hworked
      intro t ht
      rw [List.dropLast_append] at ht
      split at ht
      · exact htries.ne_never hfree t (List.mem_of_mem_dropLast ht)
      · rcases List.mem_append.1 ht with ht | ht
        · exact htries.ne_never hfree t ht
        · exact h.last t ht
  stuck hs := absurd (hx.symm.trans hs) Bool.false_ne_true
  waits := h.waits

end WorksOff

theorem worksOff_run (x : Executor) (jobs : List Job) :
    ∃ worked waiting, x.WorksOff jobs worked waiting := by
  induction jobs generalizing x with
  | nil =>
    exact ⟨[], [], rfl, rfl, nofun, nofun, .refl x, nofun, fun _ => rfl, fun h => absurd rfl h⟩
  | cons job jobs ih =>
    cases hx : x.stuck with
    | true => exact ⟨_, _, .of_stuck hx _⟩
    | false =>
      obtain ⟨ts, hdone, htries⟩ := done_perform hx job
      obtain ⟨worked, waiting, h⟩ := ih (x.perform job).1
      exact ⟨_, _, h.cons hx hdone htries⟩

/-- Blocks below the height limit are all opened. -/
theorem WorksOff.ne_never {x : Executor} {jobs : List Job} {worked waiting : List Turn}
    (h : x.WorksOff jobs worked waiting)
    (hjobs : ∀ job ∈ jobs, ∀ raw ∈ job.blocks, raw.height.toNat < heightLimit) :
    ∀ turn ∈ worked, ∀ t ∈ turn.trials, t.result ≠ .never := by
  intro turn hturn t ht hend
  have hmem := h.tries.trials ▸ List.mem_flatMap.2 ⟨turn, hturn, ht⟩
  rw [result_of_mem hmem, task_eq_never] at hend
  have hjob : turn.job ∈ jobs := h.submitted ▸ List.mem_map_of_mem (List.mem_append_left _ hturn)
  have hlow := hjobs turn.job hjob t.raw ((h.done turn hturn).raw_mem t ht)
  exact hend.2.2 (Ledger.opening_dom_iff.2 (.inl hlow))

/-- A queue of blocks below the height limit is worked off to its end. -/
theorem answered_run {x : Executor} {jobs : List Job} (hx : x.stuck = false)
    (hjobs : ∀ job ∈ jobs, ∀ raw ∈ job.blocks, raw.height.toNat < heightLimit) :
    (x.run jobs).1.stuck = false ∧ ∀ reply ∈ (x.run jobs).2, reply.Answered := by
  obtain ⟨worked, waiting, h⟩ := x.worksOff_run jobs
  have hnever := h.ne_never hjobs
  have hfree : (x.run jobs).1.stuck = false := by
    rw [h.tries.stuck, hx, Bool.false_or, List.any_eq_false]
    intro t ht hend
    obtain ⟨turn, hturn, ht⟩ := List.mem_flatMap.1 ht
    exact hnever turn hturn t ht (Result.isNever_eq_true.1 hend)
  refine ⟨hfree, fun reply hreply => ?_⟩
  have hwaiting : waiting = [] := by
    by_contra hne
    rw [h.waits hne] at hfree
    cases hfree
  rw [← h.answers, hwaiting, List.append_nil] at hreply
  obtain ⟨turn, hturn, rfl⟩ := List.mem_map.1 hreply
  exact (h.done turn hturn).answered (hnever turn hturn)

theorem run_of_never {x : Executor} (hx : x.Works) {raw raw' : RawBlock} {b : Block}
    (hok : (x.ledger.apply raw).2 = .ok b)
    (hnever : ((x.ledger.apply raw).1.apply raw').2 = .never) (jobs : List Job) :
    (x.run (.block raw :: .block raw' :: jobs)).2 =
      .block (.ok b) :: .block .never :: jobs.map Job.unanswered := by
  have hfirst : (x.parseOne raw).2 = .ok b := by
    rw [result_parseOne hx.unbroken, hok]
    rfl
  have hy : (x.parseOne raw).1.Works := hx.parseOne (by rw [hok]; rfl)
  have hledger : (x.parseOne raw).1.ledger = (x.ledger.apply raw).1 :=
    ledger_parseOne hx.unbroken _
  have hsecond : ((x.parseOne raw).1.parseOne raw').2 = .never := by
    rw [result_parseOne hy.unbroken, hledger, hnever]
    rfl
  have hstuck : ((x.parseOne raw).1.parseOne raw').1.stuck := by
    rw [parseOne_eq hy.unbroken, hledger, hnever]
    exact Bool.or_true _
  simp only [run, perform_block hx.free, perform_block hy.free, run_of_stuck hstuck, hfirst,
    hsecond]

/-- A queue is worked off by one sequence of trials, cut into turns, up to a block that fits and
whose opening has no end. A batch that is told of block by block sends each block that was parsed,
in order, and then once how it ended, if it did. -/
theorem tries_run (x : Executor) (jobs : List Job) :
    (∃ worked waiting, x.WorksOff jobs worked waiting ∧
      let ts := worked.flatMap Turn.trials
      (∀ t ∈ ts, t.result = .never ↔
        x.broken? t.found t.raw = none ∧ t.found.Fits t.raw ∧ ¬(t.found.opening t.raw).Dom) ∧
      (x.Unbroken → (∀ t ∈ ts, t.result = (t.found.apply t.raw).2.mapError .parse) ∧
        (x.run jobs).1.ledger = x.ledger.applyAll (ts.map Trial.raw) ∧
        (x.run jobs).1.ledger.chain = (committed ts).reverse ++ x.ledger.chain)) ∧
      (x.stuck = false →
        (∀ job ∈ jobs, ∀ raw ∈ job.blocks, raw.height.toNat < heightLimit) →
          (x.run jobs).1.stuck = false ∧ ∀ reply ∈ (x.run jobs).2, reply.Answered) ∧
      ∀ (y : Executor) (raws : List RawBlock), y.stuck = false → ∃ parsed finished,
        y.perform (.batch raws) = ((y.tell 0 raws).1, .batch parsed finished) ∧
          (y.tell 0 raws).2 = parsed.map .parsed ++ BatchEvent.closing finished := by
  obtain ⟨worked, waiting, h⟩ := x.worksOff_run jobs
  have hresult : ∀ t ∈ worked.flatMap Turn.trials, t.result = (x.task t.found t.raw).2 :=
    fun t ht => result_of_mem (h.tries.trials ▸ ht)
  refine ⟨⟨worked, waiting, h, fun t ht => ?_, fun hx => ⟨fun t ht => ?_, ?_, ?_⟩⟩, answered_run,
    fun y raws hy => ?_⟩
  · rw [hresult t ht, task_eq_never]
  · rw [hresult t ht, task_of_unbroken hx]
  · rw [h.tries.ledger, left_of_unbroken hx]
  · rw [h.tries.ledger, chain_left hx, ← h.tries.trials]
  · rw [perform_batch hy, tell_eq, Nat.zero_add]
    exact ⟨_, _, rfl, rfl⟩

theorem tries_sampleJobs :
    let x := Executor.new Sample.genesis
    let jobs := [.batch [Sample.first, Sample.clash, Sample.second], .block Sample.second]
    let x' := (x.run jobs).1
    x.stuck = false ∧
      (∀ job ∈ jobs, ∀ raw ∈ job.blocks, raw.height.toNat < heightLimit) ∧
      (∀ reply ∈ (x.run jobs).2, reply.Answered) ∧
      x'.ledger.chain.map (·.height) = [11, 10] ∧ x'.metrics.blocksApplied = 2 ∧
      x'.metrics.bsqTxsApplied = 3 ∧ x'.metrics.blocksRejected = 1 ∧
      x'.metrics.chainHeight = 11 := by
  intro x jobs x'
  have hjobs : ∀ job ∈ jobs, ∀ raw ∈ job.blocks, raw.height.toNat < heightLimit := by decide
  obtain ⟨-, hanswered, -⟩ := tries_run x jobs
  exact ⟨rfl, hjobs, (hanswered rfl hjobs).2, by decide +kernel⟩

/-- Neither a block at the height limit nor what is submitted after it is answered. -/
theorem queue_stands_still :
    let x := Executor.new Sample.genesis
    let raw := { Sample.second with height := 4294967295 }
    x.Works ∧ ∃ b, (x.run [.block Sample.first, .block raw, .batch []]).2 =
      [.block (.ok b), .block .never, .batch [] .never] := by
  have hcommits : ((Ledger.new Sample.genesis).apply Sample.first).2.toOption.isSome := by
    decide +kernel
  have hfits : ((Ledger.new Sample.genesis).apply Sample.first).1.Fits
      { Sample.second with height := 4294967295 } := ⟨by decide +kernel, by decide +kernel⟩
  have hunchanged : ((Ledger.new Sample.genesis).apply Sample.first).1.paramChanges = [] := by
    decide +kernel
  have hnever := Ledger.apply_of_endless hfits (Ledger.endless_of_limit hunchanged (by decide))
  obtain ⟨b, hb⟩ := Option.isSome_iff_exists.1 hcommits
  have hx := Works.new Sample.genesis
  have hreplies := run_of_never hx (Result.toOption_eq_some.1 hb) (congrArg Prod.snd hnever)
  exact ⟨hx, b, hreplies [.batch []]⟩

end Executor

end DaoLedger
