import DaoLedger.Proofs.Layouts
import DaoLedger.Proofs.Stored
import DaoLedger.Wire.Frame
/-!
Frames on a stream. Main statements: a body is read as a message just if it begins with the version
and the message's layout; and a stream of frames, cut anywhere and delivered in any pieces, yields
the messages that arrived whole, and the end that the cut calls for.
-/
namespace DaoLedger

namespace Crypto

theorem length_bytesBE (k n : Nat) : (bytesBE k n).length = k := by
  rw [bytesBE, List.length_reverse, length_bytesLE]

theorem bigEndian_bytesBE (k n : Nat) (h : n < Nat.pow 256 k) : bigEndian (bytesBE k n) = n := by
  rw [bigEndian, bytesBE, List.reverse_reverse, littleEndian_bytesLE k n h]

end Crypto

namespace Frame
open Layout (Sized bytes bytes_append_inj sized_of_length_lt split?_eq_some)

/-! ### Bodies -/

theorem toList_body (m : Message) : (body m).data.toList = 0 :: 1 :: bytes m :=
  ByteArray.toList_data_append

theorem size_body (m : Message) : (body m).size = (bytes m).length + 2 := by
  rw [← ByteArray.size_data, ← Array.length_toList, toList_body]
  rfl

theorem version_eq_iff (high low : UInt8) :
    UInt16.ofNat (Crypto.bigEndian [high, low]) = version ↔ high = 0 ∧ low = 1 := by
  have hh := high.toNat_lt
  have hl := low.toNat_lt
  have hvalue : Crypto.bigEndian [high, low] = low.toNat + 256 * high.toNat := rfl
  have hversion : version.toNat = 1 := rfl
  have hzero : (0 : UInt8).toNat = 0 := rfl
  have hone : (1 : UInt8).toNat = 1 := rfl
  rw [hvalue, ← UInt16.toNat_inj, ← UInt8.toNat_inj, ← UInt8.toNat_inj, UInt16.toNat_ofNat']
  omega

theorem decode_eq_ok {b : List UInt8} {m : Message} :
    decode b = .ok m ↔ Sized m ∧ ∃ rest, b = 0 :: 1 :: (bytes m ++ rest) := by
  cases b with
  | nil => simp [decode]
  | cons high b =>
    cases b with
    | nil => simp [decode]
    | cons low payload =>
      by_cases hv : high = 0 ∧ low = 1
      · obtain ⟨rfl, rfl⟩ := hv
        have hpayload : Layout.ofBytes payload = .ok m ↔ _ := Layout.ofBytes_eq_ok
        have hv := (version_eq_iff 0 1).2 ⟨rfl, rfl⟩
        simp only [List.cons.injEq, true_and, ← hpayload]
        cases h : (Layout.ofBytes payload : Except LayoutError Message) <;> simp [decode, hv, h]
      · have hne := mt (version_eq_iff high low).1 hv
        simp only [decode, ne_eq, hne, not_false_eq_true, if_true, reduceCtorEq, false_iff]
        intro h
        obtain ⟨-, rest, h⟩ := h
        simp only [List.cons.injEq] at h
        exact hv ⟨h.1, h.2.1⟩

theorem encode_of_le {m : Message} (h : (body m).size ≤ maxSize) :
    encode m = .ok ((Crypto.bytesBE lengthSize (body m).size).toByteArray ++ body m) := if_pos h

theorem encode_of_lt {m : Message} (h : maxSize < (body m).size) :
    encode m = .error (.tooLarge (body m).size) := if_neg (Nat.not_le.2 h)

theorem encode_eq_ok {m : Message} {frame : ByteArray} (h : encode m = .ok frame) :
    (body m).size ≤ maxSize ∧
      frame.data.toList = Crypto.bytesBE lengthSize (body m).size ++ (body m).data.toList := by
  cases Nat.lt_or_ge maxSize (body m).size with
  | inl hlt =>
    rw [encode_of_lt hlt] at h
    cases h
  | inr hle =>
    rw [encode_of_le hle] at h
    cases h
    exact ⟨hle, ByteArray.toList_data_append⟩

theorem sized_of_encode {m : Message} {frame : ByteArray} (h : encode m = .ok frame) :
    Sized m := by
  have hsize := (encode_eq_ok h).1
  rw [size_body] at hsize
  have hmax : maxSize < UInt64.size := by decide
  exact sized_of_length_lt m (by omega)

theorem decode_body {m : Message} (h : Sized m) : decode (body m).data.toList = .ok m :=
  decode_eq_ok.2 ⟨h, [], by rw [toList_body, List.append_nil]⟩

theorem decode_truncated {m : Message} (h : Sized m) {n : Nat} (hn : n < (body m).size) :
    ∃ e, decode ((body m).data.toList.take n) = .error e := by
  cases hd : decode ((body m).data.toList.take n) with
  | error e => exact ⟨e, rfl⟩
  | ok m' =>
    obtain ⟨hm', rest, htake⟩ := decode_eq_ok.1 hd
    have hbytes : bytes m ++ [] = bytes m' ++ (rest ++ (body m).data.toList.drop n) := by
      have happend := List.take_append_drop n (body m).data.toList
      rw [htake, toList_body] at happend
      simpa [toList_body] using happend.symm
    have hrest := (bytes_append_inj h hm' hbytes).2
    have hdrop := (List.append_eq_nil_iff.1 hrest.symm).2
    rw [List.drop_eq_nil_iff, Array.length_toList, ByteArray.size_data] at hdrop
    omega

/-- The version and the layout of the message make up its body, and nothing else is read as it.
A message that is not sized has more than its eight-byte lengths can count. -/
theorem decode_exact (m : Message) :
    (∀ b, decode b = .ok m ↔ Sized m ∧ ∃ rest, b = 0 :: 1 :: (bytes m ++ rest)) ∧
      ((bytes m).length < UInt64.size → Sized m) ∧
      (∀ frame, encode m = .ok frame →
        decode (frame.data.toList.drop lengthSize) = .ok m ∧
          ∀ m', encode m' = .ok frame → m' = m) ∧
      (Sized m → ∀ n < (body m).size, ∃ e, decode ((body m).data.toList.take n) = .error e) := by
  have hframe {m : Message} {frame : ByteArray} (h : encode m = .ok frame) :
      decode (frame.data.toList.drop lengthSize) = .ok m := by
    rw [(encode_eq_ok h).2, List.drop_left' (Crypto.length_bytesBE ..)]
    exact decode_body (sized_of_encode h)
  refine ⟨fun b => decode_eq_ok, sized_of_length_lt m, fun frame h => ⟨hframe h, fun m' h' => ?_⟩,
    fun h n hn => decode_truncated h hn⟩
  exact Except.ok.inj ((hframe h').symm.trans (hframe h))

theorem decode_exact_sample :
    decode (0 :: 1 :: (bytes (Message.newBlock Sample.first) ++ [7])) =
        .ok (.newBlock Sample.first) ∧
      (∃ frame, encode (.newBlock Sample.first) = .ok frame ∧
        decode (frame.data.toList.drop lengthSize) = .ok (.newBlock Sample.first)) ∧
      ∃ e, decode ((body (.newBlock Sample.first)).data.toList.take 300) = .error e := by
  obtain ⟨hdecode, hsized, hframe, htruncated⟩ := decode_exact (.newBlock Sample.first)
  have hs := hsized (by decide +kernel)
  have hle : (body (.newBlock Sample.first)).size ≤ maxSize := by decide +kernel
  exact ⟨(hdecode _).2 ⟨hs, [7], rfl⟩, ⟨_, encode_of_le hle, (hframe _ (encode_of_le hle)).1⟩,
    htruncated hs 300 (by decide +kernel)⟩

/-! ### Fronts -/

/-- How much of a frame stands at the front of the bytes. -/
inductive Stage : List UInt8 → Prop where
  | short {bs : List UInt8} (h : bs.length < lengthSize) : Stage bs
  | oversized {size rest : List UInt8} (hsize : size.length = lengthSize)
      (hmax : maxSize < Crypto.bigEndian size) : Stage (size ++ rest)
  | unfinished {size rest : List UInt8} (hsize : size.length = lengthSize)
      (hmax : Crypto.bigEndian size ≤ maxSize) (hrest : rest.length < Crypto.bigEndian size) :
      Stage (size ++ rest)
  | whole {size b rest : List UInt8} (hsize : size.length = lengthSize)
      (hmax : Crypto.bigEndian size ≤ maxSize) (hb : b.length = Crypto.bigEndian size) :
      Stage (size ++ (b ++ rest))

theorem stage (bs : List UInt8) : Stage bs := by
  cases Nat.lt_or_ge bs.length lengthSize with
  | inl h => exact .short h
  | inr h =>
    have hsize : (bs.take lengthSize).length = lengthSize := List.length_take_of_le h
    rw [← List.take_append_drop lengthSize bs]
    generalize bs.take lengthSize = size at hsize
    generalize bs.drop lengthSize = rest
    cases Nat.lt_or_ge maxSize (Crypto.bigEndian size) with
    | inl hmax => exact .oversized hsize hmax
    | inr hmax =>
      cases Nat.lt_or_ge rest.length (Crypto.bigEndian size) with
      | inl hrest => exact .unfinished hsize hmax hrest
      | inr hrest =>
        rw [← List.take_append_drop (Crypto.bigEndian size) rest]
        exact .whole hsize hmax (List.length_take_of_le hrest)

section
variable {bs size b rest more : List UInt8} {m : Message}

theorem front_short (h : bs.length < lengthSize) : front bs = .noLength := by
  rw [front, Layout.split?_of_lt h]

theorem front_oversized (hsize : size.length = lengthSize) (hmax : maxSize < Crypto.bigEndian size)
    (rest : List UInt8) : front (size ++ rest) = .fault (.tooLarge (Crypto.bigEndian size)) := by
  rw [front, split?_eq_some.2 ⟨hsize, rfl⟩]
  exact if_pos hmax

theorem front_unfinished (hsize : size.length = lengthSize)
    (hmax : Crypto.bigEndian size ≤ maxSize) (hrest : rest.length < Crypto.bigEndian size) :
    front (size ++ rest) = .noBody := by
  rw [front, split?_eq_some.2 ⟨hsize, rfl⟩]
  dsimp only
  rw [if_neg (Nat.not_lt.2 hmax), Layout.split?_of_lt hrest]

theorem front_whole (hsize : size.length = lengthSize) (hmax : Crypto.bigEndian size ≤ maxSize)
    (hb : b.length = Crypto.bigEndian size) (rest : List UInt8) :
    front (size ++ (b ++ rest)) =
      match decode b with
      | .error e => .fault e
      | .ok m => .message m rest := by
  cases hd : decode b <;>
    simp only [front, split?_eq_some.2 ⟨hsize, rfl⟩, if_neg (Nat.not_lt.2 hmax),
      split?_eq_some.2 ⟨hb, rfl⟩, hd]

theorem length_lt_of_front (h : front bs = .message m rest) : rest.length < bs.length := by
  cases stage bs with
  | short hs => rw [front_short hs] at h; cases h
  | oversized hsize hmax => rw [front_oversized hsize hmax] at h; cases h
  | unfinished hsize hmax hrest => rw [front_unfinished hsize hmax hrest] at h; cases h
  | whole hsize hmax hb =>
    rw [front_whole hsize hmax hb] at h
    split at h
    · cases h
    · cases h
      simp only [List.length_append, hsize, lengthSize]
      omega

/-- What has been read or refused does not depend on the bytes that come later. -/
theorem front_append (bs more : List UInt8) (h : front bs ≠ .noLength) (h' : front bs ≠ .noBody) :
    front (bs ++ more) =
      match front bs with
      | .message m rest => .message m (rest ++ more)
      | f => f := by
  cases stage bs with
  | short hs => exact absurd (front_short hs) h
  | oversized hsize hmax =>
    rw [List.append_assoc, front_oversized hsize hmax, front_oversized hsize hmax]
  | unfinished hsize hmax hrest => exact absurd (front_unfinished hsize hmax hrest) h'
  | whole hsize hmax hb =>
    rw [List.append_assoc, List.append_assoc, front_whole hsize hmax hb, front_whole hsize hmax hb]
    split <;> rfl

theorem decode_ne_tooLarge (b : List UInt8) (n : Nat) : decode b ≠ .error (.tooLarge n) := by
  intro h
  unfold decode at h
  split at h
  · dsimp only at h
    split at h
    · cases h
    · split at h <;> cases h
  · cases h

theorem tooLarge_iff (hsize : size.length = lengthSize) (rest : List UInt8) :
    (∃ n, front (size ++ rest) = .fault (.tooLarge n)) ↔ maxSize < Crypto.bigEndian size := by
  constructor
  · intro h
    obtain ⟨n, h⟩ := h
    apply Nat.lt_of_not_le
    intro hmax
    cases Nat.lt_or_ge rest.length (Crypto.bigEndian size) with
    | inl hrest =>
      rw [front_unfinished hsize hmax hrest] at h
      cases h
    | inr hrest =>
      have hb := List.length_take_of_le hrest
      rw [← List.take_append_drop (Crypto.bigEndian size) rest, front_whole hsize hmax hb] at h
      split at h
      · next e he =>
        cases h
        exact decode_ne_tooLarge _ n he
      · cases h
  · exact fun hmax => ⟨_, front_oversized hsize hmax rest⟩

end

/-! ### Frames -/

section
variable {m : Message} {frame : ByteArray}

theorem bigEndian_size (h : (body m).size ≤ maxSize) :
    Crypto.bigEndian (Crypto.bytesBE lengthSize (body m).size) = (body m).size :=
  Crypto.bigEndian_bytesBE lengthSize (body m).size (Nat.lt_of_le_of_lt h (by decide))

theorem front_frame (h : encode m = .ok frame) (rest : List UInt8) :
    front (frame.data.toList ++ rest) = .message m rest := by
  obtain ⟨hmax, hframe⟩ := encode_eq_ok h
  have hvalue := bigEndian_size hmax
  have hsize := Crypto.length_bytesBE lengthSize (body m).size
  have hb : (body m).data.toList.length = (body m).size := by
    rw [Array.length_toList, ByteArray.size_data]
  rw [hframe, List.append_assoc,
    front_whole hsize (hvalue.symm ▸ hmax) (hb.trans hvalue.symm),
    decode_body (sized_of_encode h)]

theorem front_take (h : encode m = .ok frame) {n : Nat} (hn : n < frame.data.toList.length) :
    front (frame.data.toList.take n) = if n < lengthSize then .noLength else .noBody := by
  obtain ⟨hmax, hframe⟩ := encode_eq_ok h
  have hvalue := bigEndian_size hmax
  have hsize := Crypto.length_bytesBE lengthSize (body m).size
  split
  · next hshort =>
    apply front_short
    rw [List.length_take]
    omega
  · next hlong =>
    rw [hframe, List.length_append, hsize, Array.length_toList, ByteArray.size_data] at hn
    rw [hframe, List.take_append, hsize, List.take_of_length_le (by omega)]
    apply front_unfinished hsize (hvalue.symm ▸ hmax)
    rw [hvalue, List.length_take]
    omega

end

def stream (frames : List ByteArray) : List UInt8 := frames.flatMap (·.data.toList)

@[simp]
theorem stream_nil : stream [] = [] := rfl

@[simp]
theorem stream_cons (frame : ByteArray) (frames : List ByteArray) :
    stream (frame :: frames) = frame.data.toList ++ stream frames := rfl

end Frame

namespace FrameReader
open DaoLedger.Frame

/-! ### Pieces -/

section
variable {bs rest : List UInt8} {m : Message} {e : WireError}

theorem drain_message (n : Nat) (h : front bs = .message m rest) :
    drain (n + 1) bs = (m :: (drain n rest).1, (drain n rest).2) := by
  rw [drain, h]

theorem drain_stuck (n : Nat) (h : front bs = .noLength ∨ front bs = .noBody) :
    drain n bs = ([], .pending bs) := by
  cases n with
  | zero => rfl
  | succ n => cases h with
    | inl h => rw [drain, h]
    | inr h => rw [drain, h]

theorem drain_fault (n : Nat) (h : front bs = .fault e) : drain (n + 1) bs = ([], .failed e) := by
  rw [drain, h]

theorem front_nil : front [] = .noLength := rfl

theorem drain_congr {n n' : Nat} (h : bs.length ≤ n) (h' : bs.length ≤ n') :
    drain n bs = drain n' bs := by
  induction n generalizing n' bs with
  | zero =>
    rw [List.length_eq_zero_iff.1 (Nat.le_zero.1 h), drain_stuck _ (.inl front_nil),
      drain_stuck _ (.inl front_nil)]
  | succ n ih =>
    cases n' with
    | zero =>
      rw [List.length_eq_zero_iff.1 (Nat.le_zero.1 h'), drain_stuck _ (.inl front_nil),
        drain_stuck _ (.inl front_nil)]
    | succ n' =>
      cases hf : front bs with
      | noLength => rw [drain_stuck _ (.inl hf), drain_stuck _ (.inl hf)]
      | noBody => rw [drain_stuck _ (.inr hf), drain_stuck _ (.inr hf)]
      | fault e => rw [drain_fault n hf, drain_fault n' hf]
      | message m rest =>
        have hlt := length_lt_of_front hf
        have hrest : drain n rest = drain n' rest := ih (by omega) (by omega)
        rw [drain_message n hf, drain_message n' hf, hrest]

theorem feed_pending (bs piece : List UInt8) :
    (pending bs).feed piece = start.feed (bs ++ piece) := rfl

theorem feed_eq_drain {n : Nat} (h : bs.length ≤ n) : start.feed bs = drain n bs :=
  drain_congr (Nat.le_refl _) h

theorem feed_message (h : front bs = .message m rest) :
    start.feed bs = (m :: (start.feed rest).1, (start.feed rest).2) := by
  have hlt := length_lt_of_front h
  rw [feed_eq_drain (Nat.le_succ bs.length), drain_message _ h, feed_eq_drain (Nat.le_of_lt hlt)]

theorem feed_stuck (h : front bs = .noLength ∨ front bs = .noBody) :
    start.feed bs = ([], .pending bs) := drain_stuck _ h

theorem feed_fault (h : front bs = .fault e) : start.feed bs = ([], .failed e) := by
  rw [feed_eq_drain (Nat.le_succ bs.length), drain_fault _ h]

end

theorem feed_append (xs ys : List UInt8) :
    start.feed (xs ++ ys) =
      ((start.feed xs).1 ++ ((start.feed xs).2.feed ys).1, ((start.feed xs).2.feed ys).2) := by
  induction hn : xs.length using Nat.strongRecOn generalizing xs with
  | ind n ih =>
    have happend := front_append xs ys
    cases hf : front xs with
    | noLength =>
      rw [feed_stuck (.inl hf), feed_pending]
      rfl
    | noBody =>
      rw [feed_stuck (.inr hf), feed_pending]
      rfl
    | fault e =>
      rw [hf] at happend
      rw [feed_fault hf, feed_fault (happend (by simp) (by simp))]
      rfl
    | message m rest =>
      rw [hf] at happend
      rw [feed_message hf, feed_message (happend (by simp) (by simp)),
        ih rest.length (hn ▸ length_lt_of_front hf) rest rfl]
      rfl

theorem feedAll_feed (xs : List UInt8) (pieces : List (List UInt8)) :
    start.feed (xs ++ pieces.flatten) =
      ((start.feed xs).1 ++ ((start.feed xs).2.feedAll pieces).1,
        ((start.feed xs).2.feedAll pieces).2) := by
  induction pieces generalizing xs with
  | nil => simp [feedAll]
  | cons piece pieces ih =>
    rw [List.flatten_cons, ← List.append_assoc, ih, feed_append, feedAll, List.append_assoc]

/-- It makes no difference where the pieces end. -/
theorem feedAll_eq (pieces : List (List UInt8)) :
    start.feedAll pieces = start.feed pieces.flatten :=
  (feedAll_feed [] pieces).symm

/-! ### Cuts -/

theorem mapM_encode_cons {m : Message} {ms : List Message} {frames : List ByteArray}
    (h : (m :: ms).mapM encode = .ok frames) :
    ∃ frame frames', encode m = .ok frame ∧ ms.mapM encode = .ok frames' ∧
      frames = frame :: frames' := by
  rw [List.mapM_cons] at h
  cases hm : encode m with
  | error e => simp [hm, bind, Except.bind] at h
  | ok frame =>
    cases hms : ms.mapM encode with
    | error e => simp [hm, hms, bind, Except.bind] at h
    | ok frames' =>
      simp only [hm, hms, bind, Except.bind, pure, Except.pure, Except.ok.injEq] at h
      exact ⟨frame, frames', rfl, rfl, h.symm⟩

theorem feed_take {ms : List Message} {frames : List ByteArray}
    (h : ms.mapM encode = .ok frames) {n : Nat} (hn : n ≤ (stream frames).length) :
    ∃ k ≤ ms.length, ∃ left, start.feed ((stream frames).take n) = (ms.take k, .pending left) ∧
      (stream (frames.take k)).length ≤ n ∧
      (k < ms.length → n < (stream (frames.take (k + 1))).length) ∧
      front left =
        if n < (stream (frames.take k)).length + lengthSize then .noLength else .noBody := by
  induction ms generalizing frames n with
  | nil =>
    cases h
    have hzero : n = 0 := Nat.le_zero.1 hn
    exact ⟨0, Nat.le_refl 0, [], by simp [feed_stuck, front_nil], by simp,
      by simp, by simp [hzero, lengthSize, front_nil]⟩
  | cons m ms ih =>
    obtain ⟨frame, frames', hframe, hframes, rfl⟩ := mapM_encode_cons h
    rw [stream_cons, List.length_append] at hn
    rw [stream_cons]
    cases Nat.lt_or_ge n frame.data.toList.length with
    | inl hlt =>
      have hfront := front_take hframe hlt
      have hstuck : front (frame.data.toList.take n) = .noLength ∨
          front (frame.data.toList.take n) = .noBody := by
        rw [hfront]
        split
        · exact .inl rfl
        · exact .inr rfl
      refine ⟨0, Nat.zero_le _, frame.data.toList.take n, ?_, Nat.zero_le _, ?_, ?_⟩
      · rw [List.take_append_of_le_length (Nat.le_of_lt hlt)]
        exact feed_stuck hstuck
      · intro _
        simpa using hlt
      · simpa using hfront
    | inr hge =>
      obtain ⟨k, hk, left, hfeed, hwhole, hnext, hleft⟩ :=
        ih hframes (n := n - frame.data.toList.length) (by omega)
      refine ⟨k + 1, Nat.succ_le_succ hk, left, ?_, ?_, ?_, ?_⟩
      · rw [List.take_append, List.take_of_length_le hge,
          feed_message (front_frame hframe _), hfeed]
        rfl
      · rw [List.take_succ_cons, stream_cons, List.length_append]
        omega
      · intro hlt
        rw [List.take_succ_cons, stream_cons, List.length_append]
        have hnext := hnext (Nat.lt_of_succ_lt_succ hlt)
        omega
      · rw [hleft, List.take_succ_cons, stream_cons, List.length_append]
        simp only [Nat.sub_lt_iff_lt_add' hge, Nat.add_assoc]

theorem encode_eq_error_iff (m : Message) :
    (∃ e, encode m = .error e) ↔ maxSize < (Layout.bytes m).length + 2 := by
  rw [← size_body]
  constructor
  · intro h
    obtain ⟨e, he⟩ := h
    apply Nat.lt_of_not_le
    intro hle
    rw [encode_of_le hle] at he
    cases he
  · exact fun hlt => ⟨_, encode_of_lt hlt⟩

/-- Of the frames that were written, those that arrived whole are read, however they arrive; and
writer and reader have the same limit. -/
theorem feedAll_exact :
    (∀ (ms : List Message) (frames : List ByteArray) (n : Nat) (pieces : List (List UInt8)),
      ms.mapM encode = .ok frames → n ≤ (stream frames).length →
        pieces.flatten = (stream frames).take n →
          ∃ k ≤ ms.length, (start.feedAll pieces).1 = ms.take k ∧
            (stream (frames.take k)).length ≤ n ∧
            (k < ms.length → n < (stream (frames.take (k + 1))).length) ∧
            (start.feedAll pieces).2.close =
              if n < (stream (frames.take k)).length + 4 then .ok () else .error .truncated) ∧
      (∀ m, (∃ e, encode m = .error e) ↔ 16 * 1024 * 1024 < (Layout.bytes m).length + 2) ∧
      ∀ size rest, size.length = 4 →
        ((∃ n, front (size ++ rest) = .fault (.tooLarge n)) ↔
          16 * 1024 * 1024 < Crypto.bigEndian size) := by
  refine ⟨fun ms frames n pieces h hn hp => ?_, encode_eq_error_iff, fun _ rest hsize =>
    tooLarge_iff hsize rest⟩
  obtain ⟨k, hk, left, hfeed, hwhole, hnext, hleft⟩ := feed_take h hn
  rw [feedAll_eq, hp, hfeed]
  refine ⟨k, hk, rfl, hwhole, hnext, ?_⟩
  by_cases hshort : n < (stream (frames.take k)).length + 4
  · have hfront : front left = .noLength := hleft.trans (if_pos hshort)
    rw [close, hfront, if_pos hshort]
  · have hfront : front left = .noBody := hleft.trans (if_neg hshort)
    rw [close, hfront, if_neg hshort]

def sampleMessages : List Message := [.getBlocks 7 9, .newBlock Sample.first]

def sampleFrames : List ByteArray :=
  sampleMessages.map fun m => (Crypto.bytesBE lengthSize (body m).size).toByteArray ++ body m

def samplePieces : List (List UInt8) :=
  [[0, 0], [0, 14, 0, 1, 0, 0, 0, 0, 7, 0, 0, 0], [9, 0, 0, 0, 0, 0, 1, 78, 0]]

theorem feedAll_exact_sample :
    sampleMessages.mapM encode = .ok sampleFrames ∧
      samplePieces.flatten = (stream sampleFrames).take 23 ∧
      (start.feedAll samplePieces).1 = [.getBlocks 7 9] ∧
      (start.feedAll samplePieces).2.close = .error .truncated ∧
      ∃ n, front [1, 0, 0, 1, 0] = .fault (.tooLarge n) := by
  obtain ⟨hcut, -, hlarge⟩ := feedAll_exact
  have hfirst : encode (.getBlocks 7 9) = .ok _ := encode_of_le (by decide +kernel)
  have hsecond : encode (.newBlock Sample.first) = .ok _ := encode_of_le (by decide +kernel)
  have hframes : sampleMessages.mapM encode = .ok sampleFrames := by
    simp [sampleMessages, sampleFrames, hfirst, hsecond, bind, Except.bind, pure, Except.pure]
  have hflat : samplePieces.flatten = (stream sampleFrames).take 23 := by decide +kernel
  obtain ⟨k, hk, hgot, hwhole, hnext, hclose⟩ :=
    hcut _ sampleFrames 23 samplePieces hframes (by decide +kernel) hflat
  have hone : k = 1 := by
    obtain rfl | rfl | rfl : k = 0 ∨ k = 1 ∨ k = 2 := by
      have htwo : sampleMessages.length = 2 := rfl
      omega
    · exact absurd (hnext (by decide)) (by decide +kernel)
    · rfl
    · exact absurd hwhole (by decide +kernel)
  subst hone
  exact ⟨hframes, hflat, hgot, hclose.trans (if_neg (by decide +kernel)),
    (hlarge [1, 0, 0, 1] [0] rfl).2 (by decide +kernel)⟩

end FrameReader
end DaoLedger
