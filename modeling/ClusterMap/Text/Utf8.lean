import ClusterMap.Bytes

/-!
# UTF-8

Texts as bytes, and where a byte string stops being well-formed text. Main statements:
`ofUtf8_utf8`, every text is read back from its bytes; `utf8_of_ofUtf8`, a byte string that is read
holds exactly that text.
-/

namespace ClusterMap.Text

/-- The UTF-8 form of a text. -/
def utf8 (s : String) : Bytes := s.toUTF8.data.toList

/-- The number of bytes of a run of characters in UTF-8. -/
def utf8Length (cs : List Char) : Nat := cs.foldl (fun n c => n + c.utf8Size) 0

/-! ## Faults -/

/-- Why a byte string is no text, with the index of the first byte that belongs to no character. -/
inductive Utf8Fault where
  /-- The `length` bytes from `index` on begin no character. -/
  | invalid (index length : Nat)
  /-- The byte string ends inside the character that begins at `index`. -/
  | incomplete (index : Nat)
  deriving DecidableEq, Repr

/-- The words that name a fault. -/
def Utf8Fault.message : Utf8Fault → String
  | .invalid index length =>
    "invalid utf-8 sequence of " ++ toString length ++ " bytes from index " ++ toString index
  | .incomplete index => "incomplete utf-8 byte sequence from index " ++ toString index

/-- How a byte string starts: with a character of so many bytes, with so many bytes that start none,
or with a character that is cut short. -/
inductive Head where
  | character (length : Nat)
  | invalid (length : Nat)
  | incomplete
  deriving DecidableEq, Repr

/-- Whether a byte may follow the second byte of a character. -/
def isContinuation (b : UInt8) : Bool := 0x80 ≤ b && b ≤ 0xBF

/-- How many bytes follow a first byte, and the range that the second byte has to lie in: no form
longer than necessary, no surrogate, nothing beyond the last code point. -/
def Head.expected (first : UInt8) : Option (Nat × UInt8 × UInt8) :=
  if first < 0xC2 then none
  else if first ≤ 0xDF then some (1, 0x80, 0xBF)
  else if first = 0xE0 then some (2, 0xA0, 0xBF)
  else if first = 0xED then some (2, 0x80, 0x9F)
  else if first ≤ 0xEF then some (2, 0x80, 0xBF)
  else if first = 0xF0 then some (3, 0x90, 0xBF)
  else if first ≤ 0xF3 then some (3, 0x80, 0xBF)
  else if first = 0xF4 then some (3, 0x80, 0x8F)
  else none

/-- The outcome of `missing` more continuation bytes after `seen` good ones. -/
def Head.continuations (seen : Nat) : (missing : Nat) → Bytes → Head
  | 0, _ => .character seen
  | _ + 1, [] => .incomplete
  | missing + 1, b :: rest =>
    if isContinuation b then continuations (seen + 1) missing rest else .invalid seen

/-- How a byte string with the first byte `first` starts. -/
def Head.ofBytes (first : UInt8) (rest : Bytes) : Head :=
  if first < 0x80 then .character 1
  else match expected first, rest with
    | none, _ => .invalid 1
    | some _, [] => .incomplete
    | some (more, low, high), second :: rest =>
      if low ≤ second && second ≤ high then continuations 2 (more - 1) rest else .invalid 1

/-- The first fault at or after `index`, the next `inside` bytes belonging to a character already
read. -/
def Utf8Fault.locate (index inside : Nat) : Bytes → Utf8Fault
  | [] => .incomplete index
  | b :: rest =>
    match inside with
    | inside + 1 => locate (index + 1) inside rest
    | 0 =>
      match Head.ofBytes b rest with
      | .character length => locate (index + 1) (length - 1) rest
      | .invalid length => .invalid index length
      | .incomplete => .incomplete index

/-! ## Reading -/

/-- The text that a byte string holds, or its first fault. -/
def ofUtf8 (b : Bytes) : Except Utf8Fault String :=
  match String.fromUTF8? b.toByteArray with
  | some s => .ok s
  | none => .error (Utf8Fault.locate 0 0 b)

theorem toByteArray_utf8 (s : String) : (utf8 s).toByteArray = s.toUTF8 := by
  apply ByteArray.ext
  rw [List.data_toByteArray, utf8, Array.toArray_toList]

/-- Every text is read back from its bytes. -/
@[simp] theorem ofUtf8_utf8 (s : String) : ofUtf8 (utf8 s) = .ok s := by
  have h : String.fromUTF8? s.toUTF8 = some s := by
    unfold String.fromUTF8?
    rw [String.toUTF8_eq_toByteArray, dif_pos s.isValidUTF8]
    rfl
  simp only [ofUtf8, toByteArray_utf8, h]

/-- A byte string that is read holds exactly that text. -/
theorem utf8_of_ofUtf8 {b : Bytes} {s : String} (h : ofUtf8 b = .ok s) : utf8 s = b := by
  unfold ofUtf8 at h
  split at h
  · next t ht =>
    cases h
    unfold String.fromUTF8? at ht
    split at ht
    · cases ht
      show (List.toByteArray b).data.toList = b
      rw [List.data_toByteArray]
    · contradiction
  · contradiction

@[simp] theorem length_utf8 (s : String) : (utf8 s).length = s.utf8ByteSize := by
  simp [utf8]

end ClusterMap.Text
