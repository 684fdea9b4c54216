import ClusterMap.Query.Literal
import ClusterMap.Query.Token

/-!
# The vocabulary of predicates

Which words may name a field, which literal a token stands for, and how deep parentheses may nest.
-/

namespace ClusterMap

open Text

/-- The words that stand for no field and no text: the two joiners, and the keywords of larger query
languages. -/
def reservedWords : List String :=
  ["AND", "OR", "NOT", "IN", "LIKE", "ILIKE", "REGEX", "BETWEEN", "IS", "NULL"]

/-- Whether a word is reserved, in any case. -/
def isReserved (word : String) : Bool := reservedWords.any (sameIgnoringCase word)

/-- The most parentheses that may be open at once. -/
def maxNesting : Nat := 256

/-- The literal that a token stands for, if it does. -/
def Literal.ofToken? : TokenKind → Option Literal
  | .quoted s => some (.text s)
  | .number n =>
    if (Number.readInt64? n.toList).isSome || (Number.readBinary64? n.toList).isSome then
      some (.number n)
    else none
  | .word w =>
    if sameIgnoringCase w "true" then some (.bool true)
    else if sameIgnoringCase w "false" then some (.bool false)
    else if isReserved w then none
    else some (.text w)
  | _ => none

end ClusterMap
