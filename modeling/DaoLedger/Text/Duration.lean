/-!
Durations in messages: in seconds with their fraction from one second on, below that in
milliseconds.
-/
namespace DaoLedger.Text

def fraction (n : Nat) : String :=
  if n % 1000 = 0 then ""
  else if n % 100 = 0 then s!".{n / 100}"
  else if n % 10 = 0 then "." ++ (if n < 100 then "0" else "") ++ toString (n / 10)
  else "." ++ (if n < 10 then "00" else if n < 100 then "0" else "") ++ toString n

def duration (milliseconds : Nat) : String :=
  if milliseconds = 0 then "0ns"
  else if milliseconds < 1000 then s!"{milliseconds}ms"
  else toString (milliseconds / 1000) ++ fraction (milliseconds % 1000) ++ "s"

end DaoLedger.Text
