/-!
Numerals: natural numbers as decimal digits and as hexadecimal digits.
`ofDecimal?_decimal` says that reading a written numeral gives the number back.
-/
namespace DaoLedger.Text

def digit (n : Nat) : Char :=
  if n < 10 then Char.ofNat (48 + n) else Char.ofNat (87 + n)

def decimalValue? (c : Char) : Option Nat :=
  if '0' ≤ c ∧ c ≤ '9' then some (c.toNat - 48) else none

def hexValue? (c : Char) : Option Nat :=
  if '0' ≤ c ∧ c ≤ '9' then some (c.toNat - 48)
  else if 'a' ≤ c ∧ c ≤ 'f' then some (c.toNat - 87)
  else if 'A' ≤ c ∧ c ≤ 'F' then some (c.toNat - 55)
  else none

def decimal (n : Nat) : List Char :=
  if n < 10 then [digit n] else decimal (n / 10) ++ [digit (n % 10)]

def decimalFrom? : Nat → List Char → Option Nat
  | acc, [] => some acc
  | acc, c :: cs => (decimalValue? c).bind fun d => decimalFrom? (10 * acc + d) cs

/-- A non-empty run of decimal digits; leading zeros are allowed. -/
def ofDecimal? : List Char → Option Nat
  | [] => none
  | cs => decimalFrom? 0 cs

theorem decimalValue?_digit {n : Nat} (h : n < 10) : decimalValue? (digit n) = some n := by
  have : ∀ m : Fin 10, decimalValue? (digit m) = some m.val := by decide
  exact this ⟨n, h⟩

theorem decimalFrom?_append (acc : Nat) (a b : List Char) :
    decimalFrom? acc (a ++ b) = (decimalFrom? acc a).bind (decimalFrom? · b) := by
  induction a generalizing acc with
  | nil => rfl
  | cons c cs ih =>
    simp only [List.cons_append, decimalFrom?]
    cases decimalValue? c <;> simp [ih]

theorem decimal_ne_nil (n : Nat) : decimal n ≠ [] := by
  unfold decimal
  split <;> simp

theorem decimalFrom?_decimal (n : Nat) : decimalFrom? 0 (decimal n) = some n := by
  induction n using Nat.strongRecOn with
  | _ n ih =>
    unfold decimal
    split
    · next h => simp [decimalFrom?, decimalValue?_digit h]
    · next h =>
      rw [decimalFrom?_append, ih (n / 10) (by omega)]
      simp [decimalFrom?, decimalValue?_digit (Nat.mod_lt n (by omega))]
      omega

theorem ofDecimal?_decimal (n : Nat) : ofDecimal? (decimal n) = some n := by
  have h := decimalFrom?_decimal n
  cases hd : decimal n with
  | nil => exact absurd hd (decimal_ne_nil n)
  | cons c cs => rw [hd] at h; exact h

def hexByte (b : UInt8) : List Char :=
  [digit (b.toNat / 16), digit (b.toNat % 16)]

def hex (bytes : List UInt8) : String :=
  String.ofList (bytes.flatMap hexByte)

def ofHexDigits? : List Char → Option (List UInt8)
  | [] => some []
  | [_] => none
  | a :: b :: cs => do
    let high ← hexValue? a
    let low ← hexValue? b
    let rest ← ofHexDigits? cs
    return UInt8.ofNat (16 * high + low) :: rest

def ofHex? (s : String) : Option (List UInt8) := ofHexDigits? s.toList

def hexDigits (n : Nat) : List Char :=
  if n < 16 then [digit n] else hexDigits (n / 16) ++ [digit (n % 16)]

end DaoLedger.Text
