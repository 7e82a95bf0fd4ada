import DaoLedger.Crypto.SealedBox
/-!
What is sealed can be opened. Main statement: a text that was encrypted with a key of the right
length is decrypted with that key, whatever nonce was drawn.
-/
namespace DaoLedger.Crypto

/-! ### Pieces -/

theorem pieces_append {α : Type} {n : Nat} {piece rest : List α} (hne : piece ≠ [])
    (hlen : piece.length ≤ n + 1) (hlast : piece.length < n + 1 → rest = []) :
    pieces n (piece ++ rest) = piece :: pieces n rest := by
  obtain ⟨a, as, rfl⟩ := List.exists_cons_of_ne_nil hne
  rw [List.length_cons] at hlen hlast
  have hcut : (as ++ rest).take n = as ∧ (as ++ rest).drop n = rest := by
    by_cases h : as.length = n
    · exact ⟨List.take_left' h, List.drop_left' h⟩
    · have hrest : rest = [] := hlast (by omega)
      rw [hrest, List.append_nil]
      exact ⟨List.take_of_length_le (by omega), List.drop_of_length_le (by omega)⟩
  rw [List.cons_append, pieces, hcut.1, hcut.2]

/-! ### The key stream -/

theorem zipWith_xor_zipWith_xor {text stream : List UInt8} (h : text.length ≤ stream.length) :
    List.zipWith (· ^^^ ·) (List.zipWith (· ^^^ ·) text stream) stream = text := by
  induction text generalizing stream with
  | nil => rfl
  | cons a text ih =>
    cases stream with
    | nil => cases h
    | cons k stream =>
      have hbyte : a ^^^ k ^^^ k = a := by rw [UInt8.xor_assoc, UInt8.xor_self, UInt8.xor_zero]
      rw [List.zipWith_cons_cons, List.zipWith_cons_cons, hbyte, ih (Nat.le_of_succ_le_succ h)]

namespace ChaCha20

theorem length_block (key nonce : List UInt8) (counter : Nat) :
    (block key nonce counter).length = 64 := by
  rw [block, List.length_flatMap]
  simp only [length_bytesLE, List.map_const', List.length_zipWith, Vector.length_toList]
  rfl

theorem apply_nil (key nonce : List UInt8) (counter : Nat) : apply key nonce counter [] = [] := by
  rw [apply, pieces, applyFrom]

section
variable {key nonce : List UInt8} {counter : Nat} {piece rest : List UInt8} (hne : piece ≠ [])
  (hlen : piece.length ≤ 64) (hlast : piece.length < 64 → rest = [])

include hne hlen hlast

theorem apply_append : apply key nonce counter (piece ++ rest) =
    List.zipWith (· ^^^ ·) piece (block key nonce counter) ++
      apply key nonce (counter + 1) rest := by
  rw [apply, pieces_append hne hlen hlast, applyFrom, apply]

/-- The encrypted pieces are cut where the pieces were. -/
theorem apply_apply_append
    (hrest : apply key nonce (counter + 1) (apply key nonce (counter + 1) rest) = rest) :
    apply key nonce counter (apply key nonce counter (piece ++ rest)) = piece ++ rest := by
  have hblock := length_block key nonce counter
  have hout : (List.zipWith (· ^^^ ·) piece (block key nonce counter)).length = piece.length := by
    rw [List.length_zipWith, hblock, Nat.min_eq_left hlen]
  rw [apply_append hne hlen hlast, apply_append, hrest]
  · exact congrArg (· ++ rest) (zipWith_xor_zipWith_xor (by rwa [hblock]))
  · exact List.ne_nil_of_length_pos (hout ▸ List.length_pos_iff.2 hne)
  · rwa [hout]
  · rw [hout]
    intro h
    rw [hlast h, apply_nil]

end

theorem apply_apply (key nonce : List UInt8) (counter : Nat) (text : List UInt8) :
    apply key nonce counter (apply key nonce counter text) = text := by
  fun_induction pieces 63 text generalizing counter with
  | case1 => rw [apply_nil, apply_nil]
  | case2 a as ih =>
    have hsplit : a :: as = (a :: as.take 63) ++ as.drop 63 := by simp
    rw [hsplit]
    refine apply_apply_append (List.cons_ne_nil a _) ?_ (fun h => ?_) (ih (counter + 1))
    · rw [List.length_cons, List.length_take]
      omega
    · rw [List.length_cons, List.length_take] at h
      exact List.drop_of_length_le (by omega)

end ChaCha20

/-! ### Tagged texts -/

namespace SealedBox

theorem length_tag (key nonce cipher : List UInt8) : (tag key nonce cipher).length = tagLength :=
  length_bytesLE 16 _

theorem unlock?_lock (key nonce text : List UInt8) :
    unlock? key nonce (lock key nonce text) = some text := by
  have htag := length_tag key nonce (ChaCha20.apply key nonce 1 text)
  have hsize : (lock key nonce text).length - tagLength =
      (ChaCha20.apply key nonce 1 text).length := by
    rw [lock, List.length_append, htag, Nat.add_sub_cancel]
  have hlong : ¬(lock key nonce text).length < tagLength := by
    rw [lock, List.length_append, htag]
    omega
  rw [unlock?, if_neg hlong, hsize, lock, List.take_left, List.drop_left, if_pos rfl,
    ChaCha20.apply_apply]

end SealedBox

theorem demandKey_ok {key : List UInt8} (hk : key.length = keyLength) : demandKey key = .ok () :=
  if_pos hk

theorem decrypt_encrypt (nonce : Nonce) (text : List UInt8) {key : List UInt8}
    (hk : key.length = keyLength) :
    ∃ sealedText, encrypt nonce text key = .ok sealedText ∧ decrypt sealedText key = .ok text := by
  have hnonce : nonce.toList.length = nonceLength := nonce.length_toList
  have hlong : ¬(nonce.toList ++ SealedBox.lock key nonce.toList text).length < nonceLength := by
    rw [List.length_append, hnonce]
    omega
  refine ⟨nonce.toList ++ SealedBox.lock key nonce.toList text, ?_, ?_⟩
  · rw [encrypt, demandKey_ok hk]
    rfl
  · rw [decrypt, demandKey_ok hk]
    change (if _ then _ else _) = _
    rw [if_neg hlong, List.take_left' hnonce, List.drop_left' hnonce, SealedBox.unlock?_lock]

end DaoLedger.Crypto
