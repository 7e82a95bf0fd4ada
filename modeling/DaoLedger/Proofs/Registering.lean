import DaoLedger.Proofs.Channels
import DaoLedger.Sync.Call
import Mathlib.Data.List.Induction
/-!
Calls that share the nonces they wait under, in any interleaving with responses. Main statement: a
call waits until the first response with its nonce comes in, which it alone gets, or until some call
with its nonce leaves. If no nonce is drawn again before the calls that had it have left, that is
the call itself.
-/
namespace DaoLedger.Pending

inductive Step where
  | start (connection : Connection) (fromHeight draw : UInt32)
  | arrive (response : BlocksResponse)
  | receive (call : Call)
  | giveUp (call : Call)
  | leave (call : Call)

namespace Step

/-- How a step ends whoever waits under a nonce: with a response, or without one. -/
def ending? (nonce : UInt32) : Step → Option (Option BlocksResponse)
  | .arrive response => if response.nonce = nonce then some (some response) else none
  | .leave call => if call.nonce = nonce then some none else none
  | .start .. | .receive _ | .giveUp _ => none

def spares (channel : Nat) : Step → Bool
  | .giveUp call | .leave call => call.channel ≠ channel
  | .start .. | .arrive _ | .receive _ => true

end Step

def ending? (nonce : UInt32) (after : List Step) : Option (Option BlocksResponse) :=
  after.findSome? (·.ending? nonce)

structure Run where
  pending : Pending
  taken : List (Nat × BlocksResponse)

namespace Run

def start : Run := ⟨.empty, []⟩

def step (r : Run) : Step → Run
  | .start connection fromHeight draw =>
    match Call.start? r.pending connection fromHeight draw with
    | none => r
    | some (pending, _) => { r with pending }
  | .arrive response => { r with pending := (r.pending.resolve response).1 }
  | .receive call =>
    let (pending, receipt) := r.pending.receive call.channel
    ⟨pending, r.taken ++ receipt.value?.toList.map (call.channel, ·)⟩
  | .giveUp call => { r with pending := r.pending.dropReceiver call.channel }
  | .leave call => { r with pending := call.leave r.pending }

def responses (r : Run) (channel : Nat) : List BlocksResponse := takenFrom r.taken channel

end Run

def run (steps : List Step) : Run := steps.foldl Run.step .start

def Starts (r : Run) (step : Step) (call : Call) : Prop :=
  ∃ connection fromHeight draw pending, step = .start connection fromHeight draw ∧
    Call.start? r.pending connection fromHeight draw = some (pending, call)

theorem run_append_one (steps : List Step) (step : Step) :
    run (steps ++ [step]) = (run steps).step step := by
  rw [run, List.foldl_append]
  rfl

theorem ending?_append_one (nonce : UInt32) (after : List Step) (step : Step) :
    ending? nonce (after ++ [step]) = (ending? nonce after).or (step.ending? nonce) := by
  simp [ending?, List.findSome?_append]

/-! ### What calls and responses do to the waiting nonces -/

section
variable {p p' : Pending} {connection : Connection} {fromHeight draw : UInt32} {call : Call}

theorem start?_eq_some (h : Call.start? p connection fromHeight draw = some (p', call)) :
    call.nonce ∉ p.waiting ∧ call.channel = p.channels.length ∧
      p' = ⟨p.waiting.insert call.nonce call.channel, p.channels ++ [.new]⟩ := by
  obtain ⟨⟨q, channel⟩, hr, heq⟩ := Option.map_eq_some_iff.1 h
  cases heq
  rw [register] at hr
  split at hr
  · cases hr
  · next hfree =>
    cases hr
    exact ⟨hfree, rfl, rfl⟩

theorem receive_eq {channel : Nat} {c : OneShot BlocksResponse}
    (h : p.channels[channel]? = some c) :
    p.receive channel =
      ({ p with channels := p.channels.set channel c.receive.1 }, c.receive.2) := by
  simp only [receive, h]

theorem waiting_receive (p : Pending) (channel : Nat) :
    (p.receive channel).1.waiting = p.waiting := by
  cases h : p.channels[channel]? with
  | none => simp only [receive, h]
  | some c => rw [receive_eq h]

theorem getElem?_receive_of_ne {n channel : Nat} (hn : n ≠ channel) :
    (p.receive n).1.channels[channel]? = p.channels[channel]? := by
  cases h : p.channels[n]? with
  | none => simp only [receive, h]
  | some c =>
    rw [receive_eq h]
    exact List.getElem?_set_ne hn

def release (p : Pending) (nonce : UInt32) (f : OneShot BlocksResponse → OneShot BlocksResponse) :
    Pending :=
  match p.waiting[nonce]? with
  | none => p
  | some channel => ⟨p.waiting.erase nonce, p.channels.modify channel f⟩

theorem resolve_fst (p : Pending) (response : BlocksResponse) :
    (p.resolve response).1 = p.release response.nonce fun c => (c.complete response).1 := by
  cases h : p.waiting[response.nonce]? <;> simp [resolve, release, h]

theorem remove_eq (p : Pending) (nonce : UInt32) :
    p.remove nonce = p.release nonce fun c => c.cancel.1 := rfl

theorem length_receive (p : Pending) (channel : Nat) :
    (p.receive channel).1.channels.length = p.channels.length := by
  cases h : p.channels[channel]? with
  | none => simp only [receive, h]
  | some c =>
    rw [receive_eq h]
    exact List.length_set

theorem length_release (p : Pending) (nonce : UInt32)
    (f : OneShot BlocksResponse → OneShot BlocksResponse) :
    (p.release nonce f).channels.length = p.channels.length := by
  cases h : p.waiting[nonce]? <;> simp [release, h]

theorem waiting_of_release {nonce other : UInt32} {channel : Nat}
    {f : OneShot BlocksResponse → OneShot BlocksResponse}
    (h : (p.release nonce f).waiting[other]? = some channel) :
    p.waiting[other]? = some channel := by
  rw [release] at h
  split at h
  · exact h
  · rw [Std.ExtTreeMap.getElem?_erase] at h
    split at h
    · cases h
    · exact h

end

/-! ### One call -/

section
variable {r r' : Run} {call : Call} {ending : Option (Option BlocksResponse)} {heard : Bool}
  {nonce : UInt32} {channel : Nat}

theorem Starts.step_eq {step : Step} (h : Starts r step call) :
    call.nonce ∉ r.pending.waiting ∧ call.channel = r.pending.channels.length ∧
      r.step step = { r with pending :=
        ⟨r.pending.waiting.insert call.nonce call.channel, r.pending.channels ++ [.new]⟩ } := by
  obtain ⟨connection, fromHeight, draw, pending, rfl, hs⟩ := h
  obtain ⟨hfree, hchannel, hpending⟩ := start?_eq_some hs
  exact ⟨hfree, hchannel, by rw [Run.step, hs, hpending]⟩

theorem step_start (r : Run) (connection : Connection) (fromHeight draw : UInt32) :
    r.step (.start connection fromHeight draw) = r ∨
      ∃ call, Starts r (.start connection fromHeight draw) call := by
  cases hs : Call.start? r.pending connection fromHeight draw with
  | none => exact .inl (by rw [Run.step, hs])
  | some started => exact .inr ⟨started.2, connection, fromHeight, draw, started.1, rfl, hs⟩

/-- A call of a run: how it ended, what was taken from its channel and whether it still listens. As
long as it has not ended it is the one that waits under its nonce. -/
structure Tracks (r : Run) (call : Call) (ending : Option (Option BlocksResponse)) (heard : Bool) :
    Prop where
  channel : ∃ c, r.pending.channels[call.channel]? = some c ∧
    c.Stands ending (r.responses call.channel) ∧ c.heard = heard
  waits : r.pending.waiting[call.nonce]? = some call.channel ↔ ending = none
  own : ∀ nonce : UInt32, r.pending.waiting[nonce]? = some call.channel → nonce = call.nonce

namespace Tracks

theorem lt_length (h : Tracks r call ending heard) : call.channel < r.pending.channels.length := by
  obtain ⟨c, hc, -⟩ := h.channel
  exact (List.getElem?_eq_some_iff.1 hc).1

theorem ended (h : Tracks r call ending heard)
    (hw : r.pending.waiting[call.nonce]? ≠ some call.channel) (e : Option (Option BlocksResponse)) :
    ending.or e = ending := by
  obtain ⟨result, rfl⟩ := Option.ne_none_iff_exists'.1 (mt h.waits.2 hw)
  rfl

theorem of_same (h : Tracks r call ending heard)
    (hc : r'.pending.channels[call.channel]? = r.pending.channels[call.channel]?)
    (hw : ∀ nonce : UInt32, r'.pending.waiting[nonce]? = some call.channel ↔
      r.pending.waiting[nonce]? = some call.channel)
    (ht : r'.responses call.channel = r.responses call.channel) : Tracks r' call ending heard where
  channel := by
    rw [hc, ht]
    exact h.channel
  waits := (hw call.nonce).trans h.waits
  own nonce hn := h.own nonce ((hw nonce).1 hn)

theorem start (h : Tracks r call ending heard) (connection : Connection)
    (fromHeight draw : UInt32) :
    Tracks (r.step (.start connection fromHeight draw)) call ending heard := by
  cases step_start r connection fromHeight draw with
  | inl heq =>
    rw [heq]
    exact h
  | inr hstarts =>
    obtain ⟨other, hstarts⟩ := hstarts
    obtain ⟨hfree, hchannel, hstep⟩ := hstarts.step_eq
    have hne : other.channel ≠ call.channel := hchannel ▸ Nat.ne_of_gt h.lt_length
    rw [hstep]
    refine h.of_same (List.getElem?_append_left h.lt_length) (fun nonce => ?_) rfl
    rw [Std.ExtTreeMap.getElem?_insert]
    split
    · next heq =>
      have hnone : r.pending.waiting[nonce]? = none := by
        rw [← Std.LawfulEqCmp.eq_of_compare heq]
        exact Std.ExtTreeMap.getElem?_eq_none hfree
      simp [hnone, hne]
    · exact Iff.rfl

theorem release (h : Tracks r call ending heard) (nonce : UInt32) (e : Option BlocksResponse)
    (f : OneShot BlocksResponse → OneShot BlocksResponse) (hf : ∀ c, (f c).heard = c.heard)
    (hs : ∀ c, c.Stands ending (r.responses call.channel) →
      (f c).Stands (ending.or (some e)) (r.responses call.channel)) :
    Tracks { r with pending := r.pending.release nonce f } call
      (ending.or (if nonce = call.nonce then some e else none)) heard := by
  rw [Pending.release]
  cases hn : r.pending.waiting[nonce]? with
  | none =>
    -- Nobody waits; if that is the nonce of the call, the call has ended before.
    by_cases he : nonce = call.nonce
    · rw [h.ended (by simp [← he, hn])]
      exact h
    · rw [if_neg he, Option.or_none]
      exact h
  | some channel =>
    by_cases hc : channel = call.channel
    · subst hc
      obtain ⟨c, ha, hstands, hheard⟩ := h.channel
      have he := h.own nonce hn
      rw [if_pos he]
      refine ⟨⟨f c, by simp [ha], hs c hstands, (hf c).trans hheard⟩, ?_, fun other ho => ?_⟩
      · simp [he]
      · rw [Std.ExtTreeMap.getElem?_erase] at ho
        split at ho
        · cases ho
        · exact h.own other ho
    · -- Somebody else waits under the nonce; if the call had it too, that was before.
      have hw (other : UInt32) : (r.pending.waiting.erase nonce)[other]? = some call.channel ↔
          r.pending.waiting[other]? = some call.channel := by
        rw [Std.ExtTreeMap.getElem?_erase]
        split
        · next heq =>
          rw [← Std.LawfulEqCmp.eq_of_compare heq, hn]
          simp [hc]
        · exact Iff.rfl
      have hsame : ending.or (if nonce = call.nonce then some e else none) = ending := by
        split
        · next he => exact h.ended (by simp [← he, hn, hc]) _
        · exact Option.or_none
      rw [hsame]
      exact h.of_same (by simp [hc]) hw rfl

theorem arrive (h : Tracks r call ending heard) (response : BlocksResponse) :
    Tracks (r.step (.arrive response)) call
      (ending.or (if response.nonce = call.nonce then some (some response) else none)) heard := by
  rw [Run.step, resolve_fst]
  exact h.release response.nonce (some response) _ (fun c => c.heard_complete response)
    fun c hc => hc.complete response

theorem receive (h : Tracks r call ending heard) (other : Call) :
    Tracks (r.step (.receive other)) call ending heard := by
  have hresponses : (r.step (.receive other)).responses call.channel =
      r.responses call.channel ++ if other.channel = call.channel then
        (r.pending.receive other.channel).2.value?.toList else [] := takenFrom_append ..
  have hwaiting : (r.step (.receive other)).pending.waiting = r.pending.waiting :=
    waiting_receive ..
  by_cases hn : other.channel = call.channel
  · obtain ⟨c, ha, hstands, hheard⟩ := h.channel
    have hreceive := receive_eq ha
    refine ⟨⟨c.receive.1, ?_, ?_, ?_⟩, ?_, ?_⟩
    · rw [Run.step, hn, hreceive]
      exact List.getElem?_set_self h.lt_length
    · rw [hresponses, if_pos hn, hn, hreceive]
      exact hstands.receive
    · rw [c.heard_receive, hheard]
    · rw [hwaiting]
      exact h.waits
    · rw [hwaiting]
      exact h.own
  · rw [if_neg hn, List.append_nil] at hresponses
    exact h.of_same (getElem?_receive_of_ne hn) (fun _ => by rw [hwaiting]) hresponses

theorem giveUp (h : Tracks r call ending heard) (other : Call) :
    Tracks (r.step (.giveUp other)) call ending
      (heard && (Step.giveUp other).spares call.channel) := by
  by_cases hn : other.channel = call.channel
  · have hspares : (Step.giveUp other).spares call.channel = false := by simp [Step.spares, hn]
    obtain ⟨c, ha, hstands, -⟩ := h.channel
    rw [hspares, Bool.and_false]
    refine ⟨⟨c.dropReceiver, ?_, hstands.dropReceiver, rfl⟩, h.waits, h.own⟩
    simp [Run.step, dropReceiver, hn, ha]
  · have hspares : (Step.giveUp other).spares call.channel = true := by simp [Step.spares, hn]
    rw [hspares, Bool.and_true]
    exact h.of_same (by simp [Run.step, dropReceiver, hn]) (fun _ => Iff.rfl) rfl

theorem leave (h : Tracks r call ending heard) (other : Call) :
    Tracks (r.step (.leave other)) call
      (ending.or (if other.nonce = call.nonce then some none else none))
      (heard && (Step.leave other).spares call.channel) := by
  have hremoved : Tracks { r with pending := r.pending.remove other.nonce } call
      (ending.or (if other.nonce = call.nonce then some none else none)) heard := by
    rw [remove_eq]
    exact h.release other.nonce none _ (fun c => c.heard_cancel) fun c hc => hc.cancel
  exact hremoved.giveUp other

theorem step (h : Tracks r call ending heard) (step : Step) :
    Tracks (r.step step) call (ending.or (step.ending? call.nonce))
      (heard && step.spares call.channel) := by
  cases step with
  | start connection fromHeight draw =>
    rw [Step.ending?, Option.or_none, Step.spares, Bool.and_true]
    exact h.start connection fromHeight draw
  | arrive response =>
    rw [Step.spares, Bool.and_true]
    exact h.arrive response
  | receive other =>
    rw [Step.ending?, Option.or_none, Step.spares, Bool.and_true]
    exact h.receive other
  | giveUp other =>
    rw [Step.ending?, Option.or_none]
    exact h.giveUp other
  | leave other => exact h.leave other

end Tracks

/-! ### Whole runs -/

theorem waiting_step {step : Step}
    (h : (r.step step).pending.waiting[nonce]? = some channel) :
    r.pending.waiting[nonce]? = some channel ∨
      ∃ call, Starts r step call ∧ call.nonce = nonce ∧ call.channel = channel := by
  cases step with
  | start connection fromHeight draw =>
    cases step_start r connection fromHeight draw with
    | inl heq => exact .inl (heq ▸ h)
    | inr hstarts =>
      obtain ⟨call, hstarts⟩ := hstarts
      rw [hstarts.step_eq.2.2, Std.ExtTreeMap.getElem?_insert] at h
      split at h
      · next heq =>
        exact .inr ⟨call, hstarts, Std.LawfulEqCmp.eq_of_compare heq, Option.some_inj.1 h⟩
      · exact .inl h
  | arrive response =>
    rw [Run.step, resolve_fst] at h
    exact .inl (waiting_of_release h)
  | receive call => exact .inl (waiting_receive r.pending call.channel ▸ h)
  | giveUp call => exact .inl h
  | leave call => exact .inl (waiting_of_release h)

theorem length_step_le (r : Run) (step : Step) :
    r.pending.channels.length ≤ (r.step step).pending.channels.length := by
  cases step with
  | start connection fromHeight draw =>
    cases step_start r connection fromHeight draw with
    | inl heq => exact Nat.le_of_eq (by rw [heq])
    | inr hstarts =>
      obtain ⟨call, hstarts⟩ := hstarts
      simp [hstarts.step_eq.2.2]
  | arrive response => exact Nat.le_of_eq (by rw [Run.step, resolve_fst, length_release])
  | receive call => exact Nat.le_of_eq (length_receive ..).symm
  | giveUp call => exact Nat.le_of_eq (List.length_modify ..).symm
  | leave call =>
    exact Nat.le_of_eq ((length_release ..).symm.trans (List.length_modify ..).symm)

structure Numbered (r : Run) : Prop where
  waiting : ∀ (nonce : UInt32) (channel : Nat), r.pending.waiting[nonce]? = some channel →
    channel < r.pending.channels.length
  taken : ∀ channel, r.pending.channels.length ≤ channel → r.responses channel = []

theorem Numbered.step (h : Numbered r) (step : Step) : Numbered (r.step step) where
  waiting nonce channel hw := by
    cases waiting_step hw with
    | inl hold => exact Nat.lt_of_lt_of_le (h.waiting nonce channel hold) (length_step_le r step)
    | inr hnew =>
      obtain ⟨call, hstarts, -, rfl⟩ := hnew
      obtain ⟨-, hchannel, hstep⟩ := hstarts.step_eq
      simp [hstep, hchannel]
  taken channel hle := by
    have hold := h.taken channel (Nat.le_trans (length_step_le r step) hle)
    cases step with
    | receive call =>
      refine (takenFrom_append ..).trans ?_
      rw [← Run.responses, hold]
      split
      · next heq =>
        have hnone : r.pending.channels[call.channel]? = none := by
          rw [List.getElem?_eq_none_iff, heq]
          exact Nat.le_trans (length_step_le r (.receive call)) hle
        simp only [hnone]
        rfl
      · rfl
    | start connection fromHeight draw =>
      cases step_start r connection fromHeight draw with
      | inl heq =>
        rw [heq]
        exact hold
      | inr hstarts =>
        obtain ⟨call, hstarts⟩ := hstarts
        rw [hstarts.step_eq.2.2]
        exact hold
    | _ => exact hold

theorem numbered_run (steps : List Step) : Numbered (run steps) := by
  induction steps using List.reverseRecOn with
  | nil => exact ⟨fun nonce channel h => by simp [run, Run.start, empty] at h, fun _ _ => rfl⟩
  | append_singleton steps step ih =>
    rw [run_append_one]
    exact ih.step step

theorem tracks_start {before : List Step} {step : Step} (h : Starts (run before) step call) :
    Tracks (run (before ++ [step])) call none true := by
  obtain ⟨-, hchannel, hstep⟩ := h.step_eq
  have hnumbered := numbered_run before
  rw [run_append_one, hstep]
  refine ⟨⟨.new, ?_, ?_, rfl⟩, ?_, fun nonce hn => ?_⟩
  · simp [hchannel]
  · have hnil := hnumbered.taken call.channel (Nat.le_of_eq hchannel.symm)
    exact hnil.symm ▸ .new
  · simp
  · rw [Std.ExtTreeMap.getElem?_insert] at hn
    split at hn
    · next heq => exact (Std.LawfulEqCmp.eq_of_compare heq).symm
    · have hlt := hnumbered.waiting nonce call.channel hn
      exact absurd hchannel (Nat.ne_of_lt hlt)

theorem tracks_run {before : List Step} {step : Step} (h : Starts (run before) step call)
    (after : List Step) :
    Tracks (run (before ++ step :: after)) call (ending? call.nonce after)
      (after.all (·.spares call.channel)) := by
  induction after using List.reverseRecOn with
  | nil => exact tracks_start h
  | append_singleton after later ih =>
    rw [← List.cons_append, ← List.append_assoc, run_append_one, ending?_append_one,
      List.all_append, List.all_cons, List.all_nil, Bool.and_true]
    exact ih.step later

def Began (steps : List Step) (call : Call) (after : List Step) : Prop :=
  ∃ before step, steps = before ++ step :: after ∧ Starts (run before) step call

theorem exists_of_waiting (steps : List Step)
    (h : (run steps).pending.waiting[nonce]? = some channel) :
    ∃ call after, Began steps call after ∧ call.nonce = nonce ∧ call.channel = channel := by
  induction steps using List.reverseRecOn with
  | nil => simp [run, Run.start, empty] at h
  | append_singleton steps step ih =>
    rw [run_append_one] at h
    cases waiting_step h with
    | inl hold =>
      obtain ⟨call, after, ⟨before, first, rfl, hstarts⟩, hcall⟩ := ih hold
      exact ⟨call, after ++ [step], ⟨before, first, by simp, hstarts⟩, hcall⟩
    | inr hnew =>
      obtain ⟨call, hstarts, hcall⟩ := hnew
      exact ⟨call, [], ⟨steps, step, rfl, hstarts⟩, hcall⟩

theorem Began.tracks {steps after : List Step} (h : Began steps call after) :
    Tracks (run steps) call (ending? call.nonce after) (after.all (·.spares call.channel)) := by
  obtain ⟨before, step, rfl, hstarts⟩ := h
  exact tracks_run hstarts after

theorem Starts.unique {step : Step} {other : Call} (h : Starts r step call)
    (ho : Starts r step other) : other = call := by
  obtain ⟨connection, fromHeight, draw, pending, rfl, hs⟩ := h
  obtain ⟨_, _, _, _, heq, ho⟩ := ho
  cases heq
  cases hs.symm.trans ho
  rfl

/-- A call began before another one started, or it is that one, or it began after that. -/
theorem Began.cases {before mid later : List Step} {step : Step} {other : Call}
    (h : Began (before ++ step :: mid) other later) :
    (∃ later, Began before other later) ∨ Starts (run before) step other ∨
      ∃ between next, mid = between ++ next :: later ∧
        Starts (run (before ++ step :: between)) next other := by
  obtain ⟨seen, next, heq, hstarts⟩ := h
  cases List.append_eq_append_iff.1 heq with
  | inl hlonger =>
    obtain ⟨more, rfl, hmore⟩ := hlonger
    cases more with
    | nil =>
      cases hmore
      exact .inr (.inl (by simpa using hstarts))
    | cons first between =>
      cases hmore
      exact .inr (.inr ⟨between, next, rfl, hstarts⟩)
  | inr hshorter =>
    obtain ⟨more, rfl, hmore⟩ := hshorter
    cases more with
    | nil =>
      cases hmore
      exact .inr (.inl (by simpa using hstarts))
    | cons first between =>
      cases hmore
      exact .inl ⟨between, seen, next, rfl, hstarts⟩

end

/-! ### When a call loses its nonce -/

/-- No call leaves before it begins, or twice. -/
def Orderly (steps : List Step) : Prop :=
  ∀ seen call rest, steps = seen ++ .leave call :: rest →
    (∃ after, Began seen call after) ∧ .leave call ∉ seen

/-- No nonce is drawn again before the calls that had it have left. -/
def Apart (steps : List Step) : Prop :=
  ∀ before step after call, steps = before ++ step :: after → Starts (run before) step call →
    ∀ other later, Began before other later → other.nonce = call.nonce → .leave other ∈ before

/-- A call that has neither left nor been answered. -/
def Live (call : Call) (after : List Step) : Prop :=
  .leave call ∉ after ∧ ∀ response, .arrive response ∈ after → response.nonce ≠ call.nonce

theorem ending?_eq_none_of_apart {steps after : List Step} {call : Call} (ho : Orderly steps)
    (ha : Apart steps) (hb : Began steps call after) (hl : Live call after) :
    ending? call.nonce after = none := by
  obtain ⟨before, step, rfl, hstarts⟩ := hb
  obtain ⟨hleave, harrive⟩ := hl
  by_contra hne
  obtain ⟨e, he⟩ := Option.ne_none_iff_exists'.1 hne
  obtain ⟨mid, last, rest, rfl, hlast, hmid⟩ := List.findSome?_eq_some_iff.1 he
  cases last with
  | arrive response =>
    rw [Step.ending?] at hlast
    split at hlast
    · next hnonce => exact harrive response (by simp) hnonce
    · cases hlast
  | leave other =>
    rw [Step.ending?] at hlast
    split at hlast
    · next hnonce =>
      obtain ⟨⟨later, hbegan⟩, hfirst⟩ := ho (before ++ step :: mid) other rest (by simp)
      obtain ⟨earlier, hearlier⟩ | hsame | ⟨between, next, rfl, hnext⟩ := hbegan.cases
      · have hleft := ha before step _ call rfl hstarts other earlier hearlier hnonce
        exact hfirst (List.mem_append_left _ hleft)
      · exact hleave (by simp [hstarts.unique hsame])
      · -- The call was still waiting then, so its nonce was not free.
        have hnone : ending? call.nonce between = none :=
          List.findSome?_eq_none_iff.2 fun x hx => hmid x (List.mem_append_left _ hx)
        have hwaits := (tracks_run hstarts between).waits.2 hnone
        refine hnext.step_eq.1 ?_
        rw [hnonce, ← Std.ExtTreeMap.isSome_getElem?_iff_mem, hwaits]
        rfl
    · cases hlast
  | start connection fromHeight draw => cases hlast
  | receive other => cases hlast
  | giveUp other => cases hlast

/-- What became of a call, the steps since its start being `after`: whether it waits, the responses
that it took, what it finds in its channel now, and who gets a response with its nonce. -/
structure Registered (r : Run) (call : Call) (after : List Step) : Prop where
  waits : r.pending.waiting[call.nonce]? = some call.channel ↔ ending? call.nonce after = none
  once : (r.responses call.channel).length ≤ 1
  own : ∀ response ∈ r.responses call.channel, ending? call.nonce after = some (some response)
  finds : (∀ step ∈ after, step.spares call.channel) → (r.pending.receive call.channel).2 =
    .of (ending? call.nonce after) (r.responses call.channel)
  delivers : ending? call.nonce after = none → (∀ step ∈ after, step.spares call.channel) →
    ∀ response, response.nonce = call.nonce →
      (r.pending.resolve response).2 = true ∧
        ((r.pending.resolve response).1.receive call.channel).2 = .value response ∧
          ∀ channel, channel ≠ call.channel →
            (r.pending.resolve response).1.channels[channel]? = r.pending.channels[channel]?

theorem resolve_eq {p : Pending} {response : BlocksResponse} {channel : Nat}
    (h : p.waiting[response.nonce]? = some channel) :
    p.resolve response = (⟨p.waiting.erase response.nonce,
      p.channels.modify channel fun c => (c.complete response).1⟩,
      (p.channels[channel]?).any (·.heard)) := by
  simp only [resolve, h]

theorem Began.registered {steps after : List Step} {call : Call} (h : Began steps call after) :
    Registered (run steps) call after := by
  have htracks := h.tracks
  obtain ⟨c, hc, hstands, hheard⟩ := htracks.channel
  refine ⟨htracks.waits, hstands.length_taken_le, fun response => hstands.ending_of_mem_taken,
    fun hs => ?_, fun hnone hs response hnonce => ?_⟩
  · rw [receive_eq hc]
    exact hstands.receipt_of_heard (hheard.trans (List.all_eq_true.2 hs))
  · have hlistens : c.heard = true := hheard.trans (List.all_eq_true.2 hs)
    have hresolve := resolve_eq ((congrArg _ hnonce).trans (htracks.waits.2 hnone))
    rw [hnone] at hstands
    have hcompleted := hstands.complete response
    rw [hstands.taken_eq_nil] at hcompleted
    rw [hresolve]
    refine ⟨by simp [hc, hlistens], ?_, fun channel hne => by simp [Ne.symm hne]⟩
    have hnow : (List.modify (run steps).pending.channels call.channel fun c =>
        (c.complete response).1)[call.channel]? = some (c.complete response).1 := by simp [hc]
    exact (congrArg Prod.snd (receive_eq hnow)).trans
      (hcompleted.receipt_of_heard ((c.heard_complete response).trans hlistens))

/-- A call waits until a response with its nonce comes in, or until a call with its nonce leaves. If
no nonce is drawn again too early it waits as long as it is live. A response that nobody waits for
changes nothing. -/
theorem registered_until_end (steps : List Step) :
    (∀ call after, Began steps call after → Registered (run steps) call after ∧
      (Orderly steps → Apart steps → Live call after →
        (run steps).pending.waiting[call.nonce]? = some call.channel)) ∧
    ∀ response, (∀ call after, Began steps call after → call.nonce = response.nonce →
        ending? call.nonce after ≠ none) →
      (run steps).pending.resolve response = ((run steps).pending, false) := by
  refine ⟨fun call after hb => ⟨hb.registered, fun ho ha hl => ?_⟩, fun response hr => ?_⟩
  · exact hb.registered.waits.2 (ending?_eq_none_of_apart ho ha hb hl)
  · cases hw : (run steps).pending.waiting[response.nonce]? with
    | none => simp only [resolve, hw]
    | some channel =>
      obtain ⟨call, after, hb, hnonce, rfl⟩ := exists_of_waiting steps hw
      exact absurd (hb.registered.waits.1 (hnonce ▸ hw)) (hr call after hb hnonce)

def samplePeer : Connection := ⟨1, .v4 ⟨127, 0, 0, 1⟩ 2001⟩

def sampleFirst : Call := ⟨samplePeer, 10, 7, 0⟩

def sampleSecond : Call := ⟨samplePeer, 10, 8, 1⟩

def sampleSteps : List Step :=
  [.start samplePeer 10 7, .start samplePeer 10 7, .arrive ⟨[], 8⟩, .leave sampleSecond,
    .start samplePeer 11 8]

theorem starts_sampleFirst : Starts (run []) (.start samplePeer 10 7) sampleFirst :=
  ⟨_, _, _, _, rfl, rfl⟩

theorem starts_sampleSecond :
    Starts (run [.start samplePeer 10 7]) (.start samplePeer 10 7) sampleSecond :=
  ⟨_, _, _, _, rfl, rfl⟩

theorem eq_sampleFirst {call : Call} {after : List Step}
    (h : Began [.start samplePeer 10 7] call after) : call = sampleFirst := by
  obtain ⟨seen, next, heq, hcall⟩ := h
  obtain ⟨rfl, rfl, -⟩ : seen = [] ∧ next = .start samplePeer 10 7 ∧ after = [] := by
    simpa [List.cons_eq_append_iff] using heq
  exact starts_sampleFirst.unique hcall

theorem orderly_sampleSteps : Orderly sampleSteps := by
  intro seen call rest h
  obtain ⟨rfl, rfl, -⟩ : seen = sampleSteps.take 3 ∧ call = sampleSecond ∧
      rest = sampleSteps.drop 4 := by
    simpa [sampleSteps, List.cons_eq_append_iff] using h
  exact ⟨⟨_, [.start samplePeer 10 7], _, rfl, starts_sampleSecond⟩, by simp [sampleSteps]⟩

theorem apart_sampleSteps : Apart sampleSteps := by
  intro before step after call h hstarts other later hbegan hnonce
  have hbefore : before = sampleSteps.take before.length := by rw [h, List.take_left]
  have hstep : sampleSteps[before.length]? = some step := by simp [h]
  generalize before.length = n at hbefore hstep
  subst hbefore
  match n, hstep with
  | 0, _ =>
    obtain ⟨seen, next, heq, -⟩ := hbegan
    simp at heq
  | 1, rfl =>
    cases starts_sampleSecond.unique hstarts
    cases eq_sampleFirst hbegan
    cases hnonce
  | 2, rfl => simp [Starts] at hstarts
  | 3, rfl => simp [Starts] at hstarts
  | 4, rfl =>
    have hthird : Starts (run (sampleSteps.take 4)) (.start samplePeer 11 8)
        ⟨samplePeer, 11, 8, 2⟩ := ⟨_, _, _, _, rfl, rfl⟩
    cases hthird.unique hstarts
    have hsplit : Began ([.start samplePeer 10 7] ++ .start samplePeer 10 7 ::
        [.arrive ⟨[], 8⟩, .leave sampleSecond]) other later := hbegan
    obtain ⟨earlier, hearlier⟩ | hsecond | ⟨between, next, hmid, hnext⟩ := hsplit.cases
    · cases eq_sampleFirst hearlier
      cases hnonce
    · cases starts_sampleSecond.unique hsecond
      simp [sampleSteps]
    · have hmem : next ∈ [.arrive ⟨[], 8⟩, .leave sampleSecond] := by simp [hmid]
      obtain ⟨_, _, _, _, rfl, -⟩ := hnext
      simp at hmem

theorem registered_sampleSteps :
    Orderly sampleSteps ∧ Apart sampleSteps ∧ Live sampleFirst (sampleSteps.drop 1) ∧
      (run sampleSteps).pending.waiting[sampleFirst.nonce]? = some sampleFirst.channel ∧
      ((run (sampleSteps.take 3)).pending.receive sampleSecond.channel).2 = .value ⟨[], 8⟩ ∧
      (run [.start samplePeer 10 7]).pending.resolve ⟨[], 8⟩ =
        ((run [.start samplePeer 10 7]).pending, false) := by
  have hlive : Live sampleFirst (sampleSteps.drop 1) := by
    simp [Live, sampleSteps, sampleFirst, sampleSecond]
  have hfirst := (registered_until_end sampleSteps).1 sampleFirst (sampleSteps.drop 1)
    ⟨[], _, rfl, starts_sampleFirst⟩
  have hsecond := (registered_until_end (sampleSteps.take 3)).1 sampleSecond [.arrive ⟨[], 8⟩]
    ⟨[.start samplePeer 10 7], _, rfl, starts_sampleSecond⟩
  refine ⟨orderly_sampleSteps, apart_sampleSteps, hlive,
    hfirst.2 orderly_sampleSteps apart_sampleSteps hlive,
    hsecond.1.finds (by simp [Step.spares]), ?_⟩
  refine (registered_until_end _).2 _ fun call after hbegan hnonce => ?_
  cases eq_sampleFirst hbegan
  cases hnonce

def sampleRedrawn : List Step :=
  [.start samplePeer 10 7, .arrive ⟨[], 7⟩, .start samplePeer 10 7, .leave sampleFirst]

theorem redrawn_nonce_is_lost :
    let call : Call := ⟨samplePeer, 10, 7, 1⟩
    let after : List Step := [.leave sampleFirst]
    Orderly sampleRedrawn ∧ Began sampleRedrawn call after ∧ Live call after ∧
      (run sampleRedrawn).pending.waiting[call.nonce]? ≠ some call.channel ∧
        ((run sampleRedrawn).pending.resolve ⟨[], 7⟩).2 = false := by
  intro call after
  refine ⟨fun seen other rest h => ?_, ?_, ⟨?_, ?_⟩, ?_, ?_⟩
  · obtain ⟨rfl, rfl, -⟩ : seen = sampleRedrawn.take 3 ∧ other = sampleFirst ∧ rest = [] := by
      simpa [sampleRedrawn, List.cons_eq_append_iff] using h
    exact ⟨⟨_, [], _, rfl, starts_sampleFirst⟩, by simp [sampleRedrawn]⟩
  · exact ⟨[.start samplePeer 10 7, .arrive ⟨[], 7⟩], _, rfl, _, _, _, _, rfl, rfl⟩
  · simp [after, call, sampleFirst]
  · simp [after]
  · decide +kernel
  · decide +kernel

end DaoLedger.Pending
