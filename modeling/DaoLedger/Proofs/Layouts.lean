import DaoLedger.Wire.Message
/-!
Binary layouts that are read back just as they were written. Main statement: for every type that
messages carry, reading succeeds on what writing produces, whatever follows it, and on nothing else.
-/
namespace DaoLedger

/-! ### Numbers -/

namespace Crypto

theorem littleEndian_lt (bs : List UInt8) : littleEndian bs < Nat.pow 256 bs.length := by
  induction bs with
  | nil => decide
  | cons b bs ih =>
    have hb := b.toNat_lt
    have hp : Nat.pow 256 (b :: bs).length = Nat.pow 256 bs.length * 256 := rfl
    rw [littleEndian, hp]
    omega

theorem bytesLE_littleEndian (bs : List UInt8) : bytesLE bs.length (littleEndian bs) = bs := by
  induction bs with
  | nil => rfl
  | cons b bs ih =>
    have hb := b.toNat_lt
    have hhigh : (b.toNat + 256 * littleEndian bs) / 256 = littleEndian bs := by omega
    have hlow : UInt8.ofNat (b.toNat + 256 * littleEndian bs) = b := by
      apply UInt8.toNat_inj.1
      rw [UInt8.toNat_ofNat']
      omega
    rw [List.length_cons, littleEndian, bytesLE, hhigh, hlow, ih]

end Crypto

/-! ### Reading step by step -/

section
variable {α β : Type} {x : Take α} {bs : List UInt8} {r : β × List UInt8}

theorem run_bind_eq_ok {f : α → Take β} : (x >>= f).run bs = .ok r ↔
    ∃ a rest, x.run bs = .ok (a, rest) ∧ (f a).run rest = .ok r := by
  rw [StateT.run_bind]
  cases x.run bs with
  | error e => simp [bind, Except.bind]
  | ok p =>
    constructor
    · exact fun h => ⟨p.1, p.2, rfl, h⟩
    · intro h
      obtain ⟨a, rest, ⟨⟩, h⟩ := h
      exact h

theorem run_map_eq_ok {f : α → β} : (f <$> x).run bs = .ok r ↔
    ∃ a rest, x.run bs = .ok (a, rest) ∧ r = (f a, rest) := by
  rw [StateT.run_map]
  cases x.run bs with
  | error e => simp [Functor.map, Except.map]
  | ok p =>
    constructor
    · exact fun h => ⟨p.1, p.2, rfl, (Except.ok.inj h).symm⟩
    · intro h
      obtain ⟨a, rest, ⟨⟩, rfl⟩ := h
      rfl

theorem run_pure_eq_ok {a : β} : (pure a : Take β).run bs = .ok r ↔ r = (a, bs) := by
  rw [StateT.run_pure]
  simp [pure, Except.pure, eq_comm]

end

namespace Layout

theorem splitFrom?_eq_some {α : Type} {n : Nat} {seen xs front rest : List α} :
    splitFrom? n seen xs = some (front, rest) ↔
      ∃ ys, ys.length = n ∧ xs = ys ++ rest ∧ front = seen.reverse ++ ys := by
  induction n generalizing seen xs with
  | zero => simp [splitFrom?, eq_comm, and_comm]
  | succ n ih =>
    cases xs with
    | nil =>
      simp only [splitFrom?, reduceCtorEq, false_iff]
      intro h
      obtain ⟨ys, hn, hnil, -⟩ := h
      rw [(List.append_eq_nil_iff.1 hnil.symm).1] at hn
      cases hn
    | cons x xs =>
      rw [splitFrom?, ih]
      constructor
      · intro h
        obtain ⟨ys, hn, rfl, rfl⟩ := h
        exact ⟨x :: ys, by simp [hn], rfl, by simp⟩
      · intro h
        obtain ⟨ys, hn, hxs, rfl⟩ := h
        cases ys with
        | nil => cases hn
        | cons y ys =>
          obtain ⟨rfl, rfl⟩ := List.cons.inj hxs
          exact ⟨ys, by simpa using hn, rfl, by simp⟩

theorem split?_eq_some {α : Type} {n : Nat} {xs front rest : List α} :
    split? n xs = some (front, rest) ↔ front.length = n ∧ xs = front ++ rest := by
  rw [split?, splitFrom?_eq_some]
  constructor
  · intro h
    obtain ⟨ys, hn, hxs, rfl⟩ := h
    exact ⟨hn, hxs⟩
  · intro h
    obtain ⟨hn, hxs⟩ := h
    exact ⟨front, hn, hxs, rfl⟩

theorem split?_of_lt {α : Type} {n : Nat} {xs : List α} (h : xs.length < n) :
    split? n xs = none := by
  cases hs : split? n xs with
  | none => rfl
  | some p =>
    obtain ⟨hn, rfl⟩ := split?_eq_some.1 hs
    rw [List.length_append] at h
    omega

section
variable {bs rest : List UInt8} {n : Nat}

theorem takeBytes_eq_ok {front : List UInt8} :
    (takeBytes n).run bs = .ok (front, rest) ↔ front.length = n ∧ bs = front ++ rest := by
  rw [← split?_eq_some]
  unfold takeBytes StateT.run
  dsimp only
  cases split? n bs with
  | none => simp
  | some p => simp [Prod.ext_iff]

theorem readNat_eq_ok {width : Nat} : (readNat width).run bs = .ok (n, rest) ↔
    n < Nat.pow 256 width ∧ bs = Crypto.bytesLE width n ++ rest := by
  simp only [readNat, run_map_eq_ok, takeBytes_eq_ok, Prod.mk.injEq]
  constructor
  · intro h
    obtain ⟨front, _, ⟨rfl, rfl⟩, rfl, rfl⟩ := h
    exact ⟨Crypto.littleEndian_lt front, by rw [Crypto.bytesLE_littleEndian]⟩
  · intro h
    obtain ⟨hn, rfl⟩ := h
    have hvalue := Crypto.littleEndian_bytesLE width n hn
    exact ⟨_, rest, ⟨Crypto.length_bytesLE width n, rfl⟩, hvalue.symm, rfl⟩

theorem readCase_eq_ok {count : Nat} (hc : count ≤ Nat.pow 256 4) :
    (readCase count).run bs = .ok (n, rest) ↔ n < count ∧ bs = Crypto.bytesLE 4 n ++ rest := by
  simp only [readCase, run_bind_eq_ok, readNat_eq_ok]
  constructor
  · intro h
    obtain ⟨m, _, ⟨-, rfl⟩, h⟩ := h
    split at h
    · next hm =>
      obtain ⟨rfl, rfl⟩ := Prod.mk.inj (run_pure_eq_ok.1 h)
      exact ⟨hm, rfl⟩
    · cases h
  · intro h
    obtain ⟨hn, rfl⟩ := h
    refine ⟨n, rest, ⟨Nat.lt_of_lt_of_le hn hc, rfl⟩, ?_⟩
    rw [if_pos hn]
    rfl

theorem toList_writeNat (width n : Nat) :
    (writeNat width n).data.toList = Crypto.bytesLE width n := by
  simp [writeNat]

end

/-! ### Exact layouts -/

/-- A layout that is read back just as it was written. -/
class Exact (α : Type) [Layout α] where
  Sized : α → Prop
  read_eq_ok (bs : List UInt8) (a : α) (rest : List UInt8) :
    (read : Take α).run bs = .ok (a, rest) ↔ Sized a ∧ bs = bytes a ++ rest
  length_pos (a : α) : 0 < (bytes a).length
  sized_of_length_lt (a : α) : (bytes a).length < UInt64.size → Sized a

export Exact (Sized read_eq_ok length_pos sized_of_length_lt)

section
variable {α β : Type} [Layout α] [Layout β]

theorem run_map_read_eq_ok {γ : Type} [Exact α] {f : α → γ} {c : γ} {bs rest : List UInt8} :
    (f <$> (read : Take α)).run bs = .ok (c, rest) ↔
      ∃ a, Sized a ∧ bs = bytes a ++ rest ∧ c = f a := by
  simp only [run_map_eq_ok, read_eq_ok, Prod.mk.injEq]
  constructor
  · intro h
    obtain ⟨a, _, ⟨ha, rfl⟩, rfl, rfl⟩ := h
    exact ⟨a, ha, rfl, rfl⟩
  · intro h
    obtain ⟨a, ha, rfl, rfl⟩ := h
    exact ⟨a, rest, ⟨ha, rfl⟩, rfl, rfl⟩

@[reducible]
def Exact.ofNat (width : Nat) (ofNat : Nat → α) (toNat : α → Nat) (hw : 0 < width)
    (hof : ∀ a, ofNat (toNat a) = a) (hlt : ∀ a, toNat a < Nat.pow 256 width)
    (hto : ∀ n, n < Nat.pow 256 width → toNat (ofNat n) = n)
    (hread : (read : Take α) = ofNat <$> readNat width)
    (hwrite : ∀ a : α, write a = writeNat width (toNat a)) : Exact α where
  Sized _ := True
  read_eq_ok bs a rest := by
    have hbytes (a : α) : bytes a = Crypto.bytesLE width (toNat a) := by
      rw [bytes, hwrite, toList_writeNat]
    simp only [hread, run_map_eq_ok, readNat_eq_ok, Prod.mk.injEq, hbytes, true_and]
    constructor
    · intro h
      obtain ⟨n, _, ⟨hn, rfl⟩, rfl, rfl⟩ := h
      rw [hto n hn]
    · rintro rfl
      exact ⟨toNat a, rest, ⟨hlt a, rfl⟩, (hof a).symm, rfl⟩
  length_pos a := by rwa [bytes, hwrite, toList_writeNat, Crypto.length_bytesLE]
  sized_of_length_lt _ _ := trivial

instance : Layout (α × β) where
  write p := write p.1 ++ write p.2
  read := return (← read, ← read)

theorem write_prod (a : α) (b : β) : write (a, b) = write a ++ write b := rfl

theorem read_prod : (read : Take (α × β)) = do return (← read, ← read) := rfl

theorem bytes_prod (a : α) (b : β) : bytes (a, b) = bytes a ++ bytes b :=
  ByteArray.toList_data_append

instance [Exact α] [Exact β] : Exact (α × β) where
  Sized p := Sized p.1 ∧ Sized p.2
  read_eq_ok bs p rest := by
    obtain ⟨a, b⟩ := p
    simp only [read_prod, run_bind_eq_ok, run_pure_eq_ok, read_eq_ok, bytes_prod, Prod.mk.injEq]
    constructor
    · intro h
      obtain ⟨a, _, ⟨ha, rfl⟩, b, _, ⟨hb, rfl⟩, ⟨rfl, rfl⟩, rfl⟩ := h
      exact ⟨⟨ha, hb⟩, (List.append_assoc ..).symm⟩
    · intro h
      obtain ⟨⟨ha, hb⟩, rfl⟩ := h
      exact ⟨a, _, ⟨ha, List.append_assoc ..⟩, b, rest, ⟨hb, rfl⟩, ⟨rfl, rfl⟩, rfl⟩
  length_pos p := by
    have ha := length_pos p.1
    rw [bytes_prod, List.length_append]
    omega
  sized_of_length_lt p h := by
    rw [bytes_prod, List.length_append] at h
    exact ⟨sized_of_length_lt p.1 (by omega), sized_of_length_lt p.2 (by omega)⟩

theorem sized_prod [Exact α] [Exact β] {a : α} {b : β} : Sized (a, b) ↔ Sized a ∧ Sized b := Iff.rfl

@[reducible]
def Exact.through [Exact α] (f : α → β) (g : β → α) (hgf : ∀ a, g (f a) = a)
    (hfg : ∀ b, f (g b) = b) (hread : (read : Take β) = f <$> read)
    (hwrite : ∀ b : β, write b = write (g b)) : Exact β where
  Sized b := Sized (g b)
  read_eq_ok bs b rest := by
    have hbytes (b : β) : bytes b = bytes (g b) := by rw [bytes, hwrite, bytes]
    rw [hread, run_map_read_eq_ok, hbytes]
    constructor
    · intro h
      obtain ⟨a, ha, rfl, rfl⟩ := h
      rw [hgf]
      exact ⟨ha, rfl⟩
    · intro h
      exact ⟨g b, h.1, h.2, (hfg b).symm⟩
  length_pos b := by
    rw [bytes, hwrite]
    exact length_pos (g b)
  sized_of_length_lt b h := by
    rw [bytes, hwrite] at h
    exact sized_of_length_lt (g b) h

end

instance : Exact UInt8 :=
  .ofNat 1 UInt8.ofNat UInt8.toNat (by decide) (fun _ => UInt8.ofNat_toNat) UInt8.toNat_lt
    (fun _ => UInt8.toNat_ofNat_of_lt') rfl fun _ => rfl

instance : Exact UInt32 :=
  .ofNat 4 UInt32.ofNat UInt32.toNat (by decide) (fun _ => UInt32.ofNat_toNat) UInt32.toNat_lt
    (fun _ => UInt32.toNat_ofNat_of_lt') rfl fun _ => rfl

theorem sized_uint32 (n : UInt32) : Sized n := trivial

instance : Exact UInt64 :=
  .ofNat 8 UInt64.ofNat UInt64.toNat (by decide) (fun _ => UInt64.ofNat_toNat) UInt64.toNat_lt
    (fun _ => UInt64.toNat_ofNat_of_lt') rfl fun _ => rfl

/-! ### Texts, options and lists -/

theorem fromUTF8?_eq_some {b : ByteArray} {s : String} :
    String.fromUTF8? b = some s ↔ s.toByteArray = b := by
  unfold String.fromUTF8?
  constructor
  · intro h
    split at h
    · cases h
      rfl
    · cases h
  · rintro rfl
    rw [dif_pos s.isValidUTF8]
    rfl

theorem bytes_string (s : String) :
    bytes s = Crypto.bytesLE 8 s.utf8ByteSize ++ s.toByteArray.data.toList := by
  rw [← toList_writeNat]
  exact ByteArray.toList_data_append

instance : Exact String where
  Sized s := s.utf8ByteSize < UInt64.size
  read_eq_ok bs s rest := by
    simp only [read, run_bind_eq_ok, readNat_eq_ok, takeBytes_eq_ok, bytes_string]
    constructor
    · intro h
      obtain ⟨length, _, ⟨hlt, rfl⟩, text, _, ⟨rfl, rfl⟩, h⟩ := h
      split at h
      · next t ht =>
        obtain ⟨rfl, rfl⟩ := Prod.mk.inj (run_pure_eq_ok.1 h)
        have htext := fromUTF8?_eq_some.1 ht
        have hsize : s.utf8ByteSize = text.length := by
          rw [String.utf8ByteSize, htext, List.size_toByteArray]
        rw [htext, hsize, List.data_toByteArray, List.append_assoc]
        exact ⟨hlt, rfl⟩
      · cases h
    · intro h
      obtain ⟨hlt, rfl⟩ := h
      refine ⟨_, _, ⟨hlt, List.append_assoc ..⟩, _, rest, ⟨?_, rfl⟩, ?_⟩
      · rw [Array.length_toList, ByteArray.size_data]
        rfl
      · have htext : s.toByteArray.data.toList.toByteArray = s.toByteArray := by
          rw [ByteArray.ext_iff, List.data_toByteArray, Array.toArray_toList]
        rw [fromUTF8?_eq_some.2 htext.symm]
        rfl
  length_pos s := by
    rw [bytes_string, List.length_append, Crypto.length_bytesLE]
    omega
  sized_of_length_lt s h := by
    rw [bytes_string, List.length_append, Array.length_toList, ByteArray.size_data] at h
    exact Nat.lt_of_le_of_lt (Nat.le_add_left ..) h

section
variable {α : Type} [Layout α]

theorem bytes_some (a : α) : bytes (some a) = 1 :: bytes a := by
  have h : bytes (some a) = (writeNat 1 1).data.toList ++ bytes a := ByteArray.toList_data_append
  rw [h, toList_writeNat]
  rfl

theorem length_le_of_mem {as : List α} {a : α} (h : a ∈ as) :
    (bytes a).length ≤ (as.flatMap bytes).length := by
  obtain ⟨before, after, rfl⟩ := List.append_of_mem h
  simp only [List.flatMap_append, List.flatMap_cons, List.length_append]
  omega

theorem bytes_list (as : List α) :
    bytes as = Crypto.bytesLE 8 as.length ++ as.flatMap bytes := by
  have h (as : List α) (b : ByteArray) :
      (as.foldl (fun bs a => bs ++ write a) b).data.toList = b.data.toList ++ as.flatMap bytes := by
    induction as generalizing b with
    | nil => simp
    | cons a as ih =>
      rw [List.foldl_cons, ih, ByteArray.toList_data_append, List.append_assoc, List.flatMap_cons]
      rfl
  rw [← toList_writeNat]
  exact h as _

variable [Exact α]

instance : Exact (Option α) where
  Sized o := ∀ a ∈ o, Sized a
  read_eq_ok bs o rest := by
    simp only [read, run_bind_eq_ok, readNat_eq_ok]
    constructor
    · intro h
      obtain ⟨tag, bs, ⟨htag, rfl⟩, h⟩ := h
      split at h
      · obtain ⟨rfl, rfl⟩ := Prod.mk.inj (run_pure_eq_ok.1 h)
        exact ⟨by simp, rfl⟩
      · obtain ⟨a, ha, rfl, rfl⟩ := run_map_read_eq_ok.1 h
        exact ⟨by simpa using ha, by rw [bytes_some]; rfl⟩
      · cases h
    · intro h
      obtain ⟨hs, rfl⟩ := h
      cases o with
      | none => exact ⟨0, rest, ⟨by decide, rfl⟩, rfl⟩
      | some a =>
        refine ⟨1, bytes a ++ rest, ⟨by decide, by rw [bytes_some]; rfl⟩, ?_⟩
        exact run_map_read_eq_ok.2 ⟨a, hs a rfl, rfl, rfl⟩
  length_pos o := by
    cases o with
    | none => exact Nat.zero_lt_one
    | some a => simp [bytes_some]
  sized_of_length_lt o h a ho := by
    rw [Option.mem_def.1 ho, bytes_some, List.length_cons] at h
    exact sized_of_length_lt a (by omega)

theorem readMany_eq_ok {bs rest : List UInt8} {as : List α} {n : Nat} :
    (readMany read n).run bs = .ok (as, rest) ↔
      (as.length = n ∧ ∀ a ∈ as, Sized a) ∧ bs = as.flatMap bytes ++ rest := by
  induction n generalizing bs as rest with
  | zero =>
    simp only [readMany, run_pure_eq_ok, Prod.mk.injEq, List.length_eq_zero_iff]
    constructor
    · intro h
      obtain ⟨rfl, rfl⟩ := h
      simp
    · intro h
      obtain ⟨⟨rfl, -⟩, rfl⟩ := h
      simp
  | succ n ih =>
    simp only [readMany, run_bind_eq_ok, run_pure_eq_ok, read_eq_ok, ih, Prod.mk.injEq]
    constructor
    · intro h
      obtain ⟨a, _, ⟨ha, rfl⟩, as, _, ⟨⟨rfl, has⟩, rfl⟩, rfl, rfl⟩ := h
      exact ⟨⟨rfl, List.forall_mem_cons.2 ⟨ha, has⟩⟩, by simp⟩
    · intro h
      obtain ⟨⟨hn, hs⟩, rfl⟩ := h
      cases as with
      | nil => cases hn
      | cons a as =>
        obtain ⟨ha, has⟩ := List.forall_mem_cons.1 hs
        exact ⟨a, _, ⟨ha, by simp⟩, as, rest, ⟨⟨by simpa using hn, has⟩, rfl⟩, rfl, rfl⟩

theorem length_le_length_flatMap (as : List α) : as.length ≤ (as.flatMap bytes).length := by
  induction as with
  | nil => exact Nat.le_refl 0
  | cons a as ih =>
    have ha := length_pos a
    rw [List.length_cons, List.flatMap_cons, List.length_append]
    omega

instance : Exact (List α) where
  Sized as := as.length < UInt64.size ∧ ∀ a ∈ as, Sized a
  read_eq_ok bs as rest := by
    simp only [read, run_bind_eq_ok, readNat_eq_ok, readMany_eq_ok, bytes_list]
    constructor
    · intro h
      obtain ⟨length, _, ⟨hlt, rfl⟩, ⟨⟨rfl, has⟩, rfl⟩⟩ := h
      exact ⟨⟨hlt, has⟩, (List.append_assoc ..).symm⟩
    · intro h
      obtain ⟨⟨hlt, has⟩, rfl⟩ := h
      exact ⟨as.length, _, ⟨hlt, List.append_assoc ..⟩, ⟨rfl, has⟩, rfl⟩
  length_pos as := by
    rw [bytes_list, List.length_append, Crypto.length_bytesLE]
    omega
  sized_of_length_lt as h := by
    rw [bytes_list, List.length_append] at h
    have hcount := length_le_length_flatMap as
    refine ⟨by omega, fun a ha => sized_of_length_lt a ?_⟩
    have hitem := length_le_of_mem ha
    omega

end

section
variable {α : Type} [Layout α] [Exact α]

theorem ofBytes_eq_ok {bs : List UInt8} {a : α} :
    ofBytes bs = .ok a ↔ Sized a ∧ ∃ rest, bs = bytes a ++ rest := by
  simp only [← exists_and_left, ← read_eq_ok, ofBytes]
  cases (read : Take α).run bs with
  | error e => simp [Except.map]
  | ok p => simp [Except.map, Prod.ext_iff]

/-- No value's bytes begin those of another. -/
theorem bytes_append_inj {a a' : α} {rest rest' : List UInt8} (ha : Sized a) (ha' : Sized a')
    (h : bytes a ++ rest = bytes a' ++ rest') : a = a' ∧ rest = rest' := by
  have hread := (read_eq_ok _ a rest).2 ⟨ha, rfl⟩
  have hread' := (read_eq_ok _ a' rest').2 ⟨ha', h⟩
  exact Prod.mk.inj (Except.ok.inj (hread.symm.trans hread'))

theorem bytes_inj {a b : α} (ha : Sized a) (hb : Sized b) : bytes a = bytes b ↔ a = b := by
  refine ⟨fun h => ?_, congrArg bytes⟩
  have h : bytes a ++ [] = bytes b ++ [] := by rw [h]
  exact (bytes_append_inj ha hb h).1

end

/-! ### Values of several cases -/

theorem toList_writeCase (index : Nat) (content : ByteArray) :
    (writeCase index ++ content).data.toList = Crypto.bytesLE 4 index ++ content.data.toList := by
  rw [← toList_writeNat]
  exact ByteArray.toList_data_append

theorem toList_writeCase_pair {α β : Type} [Layout α] [Layout β] (index : Nat) (a : α) (b : β) :
    (writeCase index ++ write a ++ write b).data.toList =
      Crypto.bytesLE 4 index ++ bytes (a, b) := by
  rw [ByteArray.append_assoc]
  exact toList_writeCase index (write (a, b))

theorem three_le_count : 3 ≤ Nat.pow 256 4 := by decide

/-- How values are laid out that are led by the number of their case. -/
structure Tagged (α : Type) [Layout α] where
  count : Nat
  index : α → Nat
  content : α → List UInt8
  Sized : α → Prop
  readOn : Nat → Take α
  count_le : count ≤ Nat.pow 256 4
  read_eq : (read : Take α) = readCase count >>= readOn
  bytes_eq (a : α) : bytes a = Crypto.bytesLE 4 (index a) ++ content a
  index_lt (a : α) : index a < count
  readOn_eq_ok (n : Nat) (bs : List UInt8) (a : α) (rest : List UInt8) (hn : n < count) :
    (readOn n).run bs = .ok (a, rest) ↔ index a = n ∧ Sized a ∧ bs = content a ++ rest
  sized_of_content (a : α) : (content a).length < UInt64.size → Sized a

@[reducible]
def Exact.ofTagged {α : Type} [Layout α] (t : Tagged α) : Exact α where
  Sized := t.Sized
  read_eq_ok bs a rest := by
    simp only [t.read_eq, run_bind_eq_ok, readCase_eq_ok t.count_le, t.bytes_eq, List.append_assoc]
    constructor
    · intro h
      obtain ⟨n, _, ⟨hn, rfl⟩, h⟩ := h
      obtain ⟨rfl, hs, rfl⟩ := (t.readOn_eq_ok n _ a rest hn).1 h
      exact ⟨hs, rfl⟩
    · intro h
      obtain ⟨hs, rfl⟩ := h
      have hread := (t.readOn_eq_ok _ _ a rest (t.index_lt a)).2 ⟨rfl, hs, rfl⟩
      exact ⟨_, _, ⟨t.index_lt a, rfl⟩, hread⟩
  length_pos a := by
    rw [t.bytes_eq, List.length_append, Crypto.length_bytesLE]
    omega
  sized_of_length_lt a h := by
    rw [t.bytes_eq, List.length_append] at h
    exact t.sized_of_content a (by omega)

/-! ### What messages carry -/

instance : Exact TxId :=
  .through TxId.mk TxId.text (fun _ => rfl) (fun _ => rfl) rfl fun _ => rfl

instance : Exact BlockHash :=
  .through BlockHash.mk BlockHash.text (fun _ => rfl) (fun _ => rfl) rfl fun _ => rfl

instance : Exact LockingScript :=
  .through (fun (kind, hex, addresses) => ⟨kind, hex, addresses⟩)
    (fun s => (s.kind, s.hex, s.addresses)) (fun _ => rfl) (fun _ => rfl)
    (by simp only [read_prod, map_bind, bind_assoc, pure_bind, map_pure]; rfl)
    fun _ => by simp only [write_prod, ← ByteArray.append_assoc]; rfl

instance : Exact Input :=
  .through (fun (txId, index, pubKey) => ⟨⟨txId, index⟩, pubKey⟩)
    (fun i => (i.source.txId, i.source.index, i.pubKey)) (fun _ => rfl) (fun _ => rfl)
    (by simp only [read_prod, map_bind, bind_assoc, pure_bind, map_pure]; rfl)
    fun _ => by simp only [write_prod, ← ByteArray.append_assoc]; rfl

instance : Exact RawOutput :=
  .through
    (fun (index, value, txId, script, address, payload, blockHeight) =>
      ⟨index, value, txId, script, address, payload, blockHeight⟩)
    (fun o => (o.index, o.value, o.txId, o.script, o.address, o.payload, o.blockHeight))
    (fun _ => rfl) (fun _ => rfl)
    (by simp only [read_prod, map_bind, bind_assoc, pure_bind, map_pure]; rfl)
    fun _ => by simp only [write_prod, ← ByteArray.append_assoc]; rfl

instance : Exact RawTx :=
  .through
    (fun (id, blockHeight, blockHash, time, inputs, outputs) =>
      ⟨id, blockHeight, blockHash, time, inputs, outputs⟩)
    (fun tx => (tx.id, tx.blockHeight, tx.blockHash, tx.time, tx.inputs, tx.outputs))
    (fun _ => rfl) (fun _ => rfl)
    (by simp only [read_prod, map_bind, bind_assoc, pure_bind, map_pure]; rfl)
    fun _ => by simp only [write_prod, ← ByteArray.append_assoc]; rfl

instance : Exact RawBlock :=
  .through (fun (height, time, hash, previousHash, txs) => ⟨height, time, hash, previousHash, txs⟩)
    (fun b => (b.height, b.time, b.hash, b.previousHash, b.txs)) (fun _ => rfl) (fun _ => rfl)
    (by simp only [read_prod, map_bind, bind_assoc, pure_bind, map_pure]; rfl)
    fun _ => by simp only [write_prod, ← ByteArray.append_assoc]; rfl

instance : Exact BlocksResponse :=
  .through (fun (blocks, nonce) => ⟨blocks, nonce⟩) (fun r => (r.blocks, r.nonce))
    (fun _ => rfl) (fun _ => rfl)
    (by simp only [read_prod, map_bind, map_pure]; rfl) fun _ => rfl

def messageCase : Message → Nat
  | .getBlocks _ _ => 0
  | .blocks _ => 1
  | .newBlock _ => 2

def messageContent : Message → List UInt8
  | .getBlocks fromHeight nonce => bytes (fromHeight, nonce)
  | .blocks r => bytes r
  | .newBlock b => bytes b

theorem bytes_blocks (r : BlocksResponse) :
    bytes (Message.blocks r) = Crypto.bytesLE 4 1 ++ bytes r := toList_writeCase 1 (write r)

theorem bytes_newBlock (b : RawBlock) :
    bytes (Message.newBlock b) = Crypto.bytesLE 4 2 ++ bytes b := toList_writeCase 2 (write b)

theorem bytes_message (m : Message) :
    bytes m = Crypto.bytesLE 4 (messageCase m) ++ messageContent m := by
  cases m with
  | getBlocks fromHeight nonce => exact toList_writeCase_pair 0 fromHeight nonce
  | blocks r => exact bytes_blocks r
  | newBlock b => exact bytes_newBlock b

def readMessage : Nat → Take Message
  | 0 => (fun (fromHeight, nonce) => .getBlocks fromHeight nonce) <$> read
  | 1 => .blocks <$> read
  | _ => .newBlock <$> read

theorem read_message : (read : Take Message) = readCase 3 >>= readMessage := by
  simp only [funext readMessage.eq_def, read_prod, map_bind, map_pure]
  rfl

def messageSized : Message → Prop
  | .getBlocks _ _ => True
  | .blocks r => Sized r
  | .newBlock b => Sized b

theorem messageCase_lt (m : Message) : messageCase m < 3 := by
  cases m <;> simp [messageCase]

theorem readMessage_eq_ok {n : Nat} {bs : List UInt8} {m : Message} {rest : List UInt8}
    (hn : n < 3) : (readMessage n).run bs = .ok (m, rest) ↔
      messageCase m = n ∧ messageSized m ∧ bs = messageContent m ++ rest := by
  obtain rfl | rfl | rfl : n = 0 ∨ n = 1 ∨ n = 2 := by omega
  all_goals
    refine run_map_read_eq_ok.trans ?_
    cases m <;> simp [messageCase, messageContent, messageSized, sized_prod, sized_uint32]

theorem messageSized_of_content (m : Message) (h : (messageContent m).length < UInt64.size) :
    messageSized m := by
  cases m with
  | getBlocks fromHeight nonce => trivial
  | blocks r => exact sized_of_length_lt r h
  | newBlock b => exact sized_of_length_lt b h

def taggedMessage : Tagged Message where
  count := 3
  index := messageCase
  content := messageContent
  Sized := messageSized
  readOn := readMessage
  count_le := three_le_count
  read_eq := read_message
  bytes_eq := bytes_message
  index_lt := messageCase_lt
  readOn_eq_ok _ _ _ _ := readMessage_eq_ok
  sized_of_content := messageSized_of_content

instance : Exact Message := .ofTagged taggedMessage

end Layout
end DaoLedger
