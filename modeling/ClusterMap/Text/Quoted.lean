import ClusterMap.Text.Concealed

/-!
# Quoted text

A text between double quotes, written so that it can be read in a message: quotes, backslashes and
line ends by a backslash and a letter, what shows nothing of its own by its number.
-/

namespace ClusterMap.Text

/-- The backslash. -/
def backslash : Char := '\x5c'

/-- One character inside double quotes. -/
def escape (c : Char) : List Char :=
  if c = '\x22' ∨ c = backslash then [backslash, c]
  else if c = '\x00' then [backslash, '0']
  else if c = '\t' then [backslash, 't']
  else if c = '\n' then [backslash, 'n']
  else if c = '\r' then [backslash, 'r']
  else if isConcealed c then
    [backslash, 'u', '\x7b'] ++ Nat.toDigits 16 c.toNat ++ ['\x7d']
  else [c]

/-- A text between double quotes. -/
def quoted (s : String) : String :=
  String.ofList ('\x22' :: s.toList.flatMap escape ++ ['\x22'])

end ClusterMap.Text
