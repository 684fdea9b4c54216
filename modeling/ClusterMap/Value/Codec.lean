import ClusterMap.Value.Basic

/-!
# Values as bytes

Every tree starts with its kind as a word of four bytes. A truth value takes one byte, a number
eight, a text or a field name its length as eight bytes and then its UTF-8 form, a record the number
of its fields as eight bytes and then every name with its tree. Words have the least significant
byte first. Neither a value nor the bytes read as one may be longer than `maxSize`; bytes behind the
tree are left alone. Main statement: `length_encodeTree`, the bytes of a tree are as many as its
size says.
-/

namespace ClusterMap

open Number Text

/-! ## Errors -/

/-- Why a value cannot be written or read. -/
inductive CodecError where
  /-- So many bytes are more than the limit. -/
  | tooLarge (size : Nat)
  /-- A word or a truth value is cut short. -/
  | endOfInput
  /-- A text is longer than what is left. -/
  | textCutShort
  | unknownKind (kind : Nat)
  | invalidBool (byte : Nat)
  | invalidText (fault : Utf8Fault)
  deriving DecidableEq, Repr

namespace Codec

/-- The most bytes that a value may take: sixteen mebibytes. -/
def maxSize : Nat := 16 * 1024 * 1024

/-- What went wrong while reading. -/
def readingMessage (reason : String) : String := "Failed to decode value: " ++ reason

end Codec

/-- The sentence that says why a value cannot be written or read. -/
def CodecError.message : CodecError → String
  | .tooLarge size =>
    "Value too large: " ++ toString size ++ " bytes (max " ++ toString Codec.maxSize ++ ")"
  | .endOfInput => Codec.readingMessage "io error: unexpected end of file"
  | .textCutShort => Codec.readingMessage "io error: "
  | .unknownKind kind =>
    Codec.readingMessage
      ("invalid value: integer \x60" ++ toString kind ++ "\x60, expected variant index 0 <= i < 6")
  | .invalidBool byte =>
    Codec.readingMessage
      ("invalid u8 while decoding bool, expected 0 or 1, found " ++ toString byte)
  | .invalidText fault => Codec.readingMessage ("string is not valid utf8: " ++ fault.message)

namespace Codec

/-! ## Writing -/

/-- The word that announces the kind of a tree. -/
def kindBytes (kind : Nat) : Bytes := littleEndian 4 kind

/-- A text behind its length. -/
def encodeText (s : String) : Bytes := littleEndian 8 s.utf8ByteSize ++ utf8 s

/-- The bytes of a scalar. -/
def encodeScalar : Scalar → Bytes
  | .null => kindBytes 0
  | .bool b => kindBytes 1 ++ [if b then 1 else 0]
  | .int n => kindBytes 2 ++ littleEndian 8 n.toUInt64.toNat
  | .float x => kindBytes 3 ++ littleEndian 8 x.word
  | .text s => kindBytes 4 ++ encodeText s

/-- A record of fields whose trees are bytes already. -/
def encodeRecord (fields : List (String × Bytes)) : Bytes :=
  kindBytes 5 ++ littleEndian 8 fields.length ++ fields.flatMap fun p => encodeText p.1 ++ p.2

/-- The bytes of a tree. -/
def encodeTree : Tree → Bytes := Tree.fold encodeScalar encodeRecord

/-! ## Size -/

/-- The number of bytes of a scalar. -/
def scalarSize : Scalar → Nat
  | .null => 4
  | .bool _ => 5
  | .int _ => 12
  | .float _ => 12
  | .text s => 12 + s.utf8ByteSize

/-- The number of bytes of a record, given the numbers for its fields. -/
def recordSize (fields : List (String × Nat)) : Nat :=
  12 + (fields.map fun p => 8 + p.1.utf8ByteSize + p.2).sum

/-- The number of bytes of a tree. -/
def treeSize : Tree → Nat := Tree.fold scalarSize recordSize

theorem length_encodeText (s : String) : (encodeText s).length = 8 + s.utf8ByteSize := by
  simp [encodeText]

theorem length_encodeScalar (s : Scalar) : (encodeScalar s).length = scalarSize s := by
  cases s with
  | text s =>
    simp only [encodeScalar, scalarSize, kindBytes, List.length_append, length_littleEndian,
      length_encodeText]
    omega
  | _ => simp [encodeScalar, scalarSize, kindBytes]

theorem length_encodeTree (t : Tree) : (encodeTree t).length = treeSize t := by
  induction t using Tree.induction with
  | scalar s => exact length_encodeScalar s
  | record fields ih =>
    have hsum : ((fields.map fun p => (p.1, encodeTree p.2)).flatMap fun p =>
        encodeText p.1 ++ p.2).length =
        ((fields.map fun p => (p.1, treeSize p.2)).map fun p =>
          8 + p.1.utf8ByteSize + p.2).sum := by
      rw [List.length_flatMap, List.map_map, List.map_map]
      congr 1
      exact List.map_congr_left fun p hp => by
        simp [length_encodeText, ih p hp]
    simp only [encodeTree, treeSize, Tree.fold_record] at hsum ⊢
    simp [encodeRecord, recordSize, kindBytes, hsum]
    omega

/-! ## Reading -/

/-- A word of `width` bytes and what follows it. -/
def readWord (width : Nat) (b : Bytes) : Except CodecError (Nat × Bytes) :=
  match split? width b with
  | some (word, rest) => .ok (ofLittleEndian word, rest)
  | none => .error .endOfInput

/-- A text behind its length, and what follows it. -/
def readText (b : Bytes) : Except CodecError (String × Bytes) := do
  let (length, b) ← readWord 8 b
  match split? length b with
  | none => .error .textCutShort
  | some (front, rest) =>
    match ofUtf8 front with
    | .ok s => .ok (s, rest)
    | .error fault => .error (.invalidText fault)

/-- The rest of a scalar of a kind other than null, and what follows it. -/
def readScalar (kind : Nat) (b : Bytes) : Except CodecError (Scalar × Bytes) :=
  match kind with
  | 0 => .ok (.null, b)
  | 1 => do
    let (byte, b) ← readWord 1 b
    match byte with
    | 0 => .ok (.bool false, b)
    | 1 => .ok (.bool true, b)
    | byte => .error (.invalidBool byte)
  | 2 => do
    let (word, b) ← readWord 8 b
    .ok (.int (UInt64.ofNat word).toInt64, b)
  | 3 => do
    let (word, b) ← readWord 8 b
    .ok (.float (.ofWord word), b)
  | 4 => do
    let (s, b) ← readText b
    .ok (.text s, b)
  | kind => .error (.unknownKind kind)

mutual

/-- The tree at the front of a byte string and what follows it. Every call takes at least four bytes
before the next one, so a `fuel` of the length of the byte string never runs out. -/
def readTreeWithin : (fuel : Nat) → Bytes → Except CodecError (Tree × Bytes)
  | 0, _ => .error .endOfInput
  | fuel + 1, b => do
    let (kind, b) ← readWord 4 b
    if kind = 5 then
      let (count, b) ← readWord 8 b
      let (fields, b) ← readFieldsWithin fuel count b
      .ok (.record fields, b)
    else
      let (s, b) ← readScalar kind b
      .ok (.scalar s, b)

/-- The next `count` fields and what follows them. -/
def readFieldsWithin : (fuel count : Nat) → Bytes → Except CodecError (List (String × Tree) × Bytes)
  | _, 0, b => .ok ([], b)
  | 0, _ + 1, _ => .error .endOfInput
  | fuel + 1, count + 1, b => do
    let (name, b) ← readText b
    let (t, b) ← readTreeWithin fuel b
    let (fields, b) ← readFieldsWithin fuel count b
    .ok ((name, t) :: fields, b)

end

/-- The tree at the front of a byte string and what follows it. -/
def readTree (b : Bytes) : Except CodecError (Tree × Bytes) := readTreeWithin (b.length + 1) b

end Codec

namespace Value

/-- The number of bytes of a value. -/
def size (v : Value) : Nat := Codec.treeSize v.tree

/-- The bytes of a value that keeps to the limit. -/
def encode (v : Value) : Except CodecError Bytes :=
  if v.size ≤ Codec.maxSize then .ok (Codec.encodeTree v.tree) else .error (.tooLarge v.size)

/-- The value at the front of a byte string that keeps to the limit. -/
def decode (b : Bytes) : Except CodecError Value :=
  if b.length ≤ Codec.maxSize then
    match Codec.readTree b with
    | .ok (t, _) => .ok (ofTree t)
    | .error e => .error e
  else .error (.tooLarge b.length)

end Value

end ClusterMap
