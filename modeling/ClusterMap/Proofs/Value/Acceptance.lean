import ClusterMap.Client.MapHandle
import ClusterMap.Proofs.Value.RoundTrip

/-!
# Which bytes are values

The wire format of trees as a relation between bytes and trees (`Writes`), without regard to how
they are read or written, and what a tree stands for whose records may list a name more than once
(`Tree.Settles`). A reader that succeeds has read the bytes of the tree that it gives, and bytes of
a tree are read if they keep to the limit. So exactly what begins with the bytes of a tree is
accepted, and everything else is refused. Main statements: `writes_of_readTreeWithin`,
`readTree_of_writes`; `settles_normal`, `eq_normal_of_settles`; `decode_accepts_exactly`.
-/

namespace ClusterMap

open Number Text

namespace Codec

/-! ## The wire format -/

/-- Bytes that write a number as a word of `width` bytes, the least significant one first. -/
structure WritesWord (width : Nat) (b : Bytes) (n : Nat) : Prop where
  length_eq : b.length = width
  number_eq : ofLittleEndian b = n

/-- Bytes that write a text: a word of eight bytes with the number of bytes in its UTF-8 form, and
these. -/
inductive WritesText : Bytes → String → Prop where
  | intro {length : Bytes} {s : String} :
      WritesWord 8 length (utf8 s).length → WritesText (length ++ utf8 s) s

mutual

/-- Bytes that write a tree: a word of four bytes for its kind, and what the kind asks for. -/
inductive Writes : Bytes → Tree → Prop where
  | null {kind : Bytes} : WritesWord 4 kind 0 → Writes kind (.scalar .null)
  | bool {kind : Bytes} (b : Bool) :
      WritesWord 4 kind 1 → Writes (kind ++ [if b then 1 else 0]) (.scalar (.bool b))
  | int {kind word : Bytes} {n : Int64} : WritesWord 4 kind 2 → WritesWord 8 word n.toUInt64.toNat →
      Writes (kind ++ word) (.scalar (.int n))
  | float {kind word : Bytes} {x : Binary64} :
      WritesWord 4 kind 3 → WritesWord 8 word x.bits.toNat →
      Writes (kind ++ word) (.scalar (.float x))
  | text {kind text : Bytes} {s : String} : WritesWord 4 kind 4 → WritesText text s →
      Writes (kind ++ text) (.scalar (.text s))
  | record {kind count body : Bytes} {fields : List (String × Tree)} : WritesWord 4 kind 5 →
      WritesWord 8 count fields.length → WritesFields body fields →
      Writes (kind ++ (count ++ body)) (.record fields)

/-- Bytes that write fields: each name and its tree, in any order and with names repeated. -/
inductive WritesFields : Bytes → List (String × Tree) → Prop where
  | nil : WritesFields [] []
  | cons {text tree body : Bytes} {name : String} {t : Tree} {fields : List (String × Tree)} :
      WritesText text name →
      Writes tree t → WritesFields body fields →
      WritesFields (text ++ (tree ++ body)) ((name, t) :: fields)

end

/-! ## Bytes of a tree -/

theorem littleEndian_of_writesWord {width n : Nat} {b : Bytes} (h : WritesWord width b n) :
    littleEndian width n = b := by
  obtain ⟨rfl, rfl⟩ := h
  exact littleEndian_ofLittleEndian b

theorem encodeText_of_writesText {b : Bytes} {s : String} (h : WritesText b s) :
    encodeText s = b := by
  obtain ⟨hlength⟩ := h
  rw [encodeText, ← length_utf8, littleEndian_of_writesWord hlength]

mutual

/-- A tree has no other bytes than those that writing it gives. -/
theorem encodeTree_of_writes {b : Bytes} {t : Tree} (h : Writes b t) : encodeTree t = b := by
  match h with
  | .null hkind => exact littleEndian_of_writesWord hkind
  | .bool b hkind => exact congrArg (· ++ _) (littleEndian_of_writesWord hkind)
  | .int hkind hword | .float hkind hword =>
    rw [← littleEndian_of_writesWord hkind, ← littleEndian_of_writesWord hword]
    rfl
  | .text hkind htext =>
    rw [← littleEndian_of_writesWord hkind, ← encodeText_of_writesText htext]
    rfl
  | .record hkind hcount hfields =>
    rw [encodeTree_record, kindBytes, littleEndian_of_writesWord hkind,
      littleEndian_of_writesWord hcount, encodeFields_of_writesFields hfields]

/-- Nor have fields. -/
theorem encodeFields_of_writesFields {b : Bytes} {fields : List (String × Tree)}
    (h : WritesFields b fields) :
    encodeFields fields = b := by
  match h with
  | .nil => rfl
  | .cons htext htree hfields =>
    rw [encodeFields, List.flatMap_cons, encodeText_of_writesText htext, encodeTree_of_writes htree,
      List.append_assoc, ← encodeFields_of_writesFields hfields, encodeFields]

end

/-! ## What a reader has read -/

theorem writesWord_of_readWord {width n : Nat} {b rest : Bytes}
    (h : readWord width b = .ok (n, rest)) :
    ∃ front, b = front ++ rest ∧ WritesWord width front n := by
  unfold readWord at h
  split at h
  · next word rest' hsplit =>
    obtain ⟨rfl, hlength⟩ := split?_eq_some_iff.1 hsplit
    obtain ⟨rfl, rfl⟩ := Prod.mk.inj (Except.ok.inj h)
    exact ⟨word, rfl, hlength, rfl⟩
  · contradiction

theorem writesText_of_readText {s : String} {b rest : Bytes} (h : readText b = .ok (s, rest)) :
    ∃ front, b = front ++ rest ∧ WritesText front s := by
  obtain ⟨⟨length, behind⟩, hword, htext⟩ := bind_eq_ok h
  obtain ⟨word, rfl, hlength⟩ := writesWord_of_readWord hword
  simp only at htext
  split at htext
  · contradiction
  · next text rest' hsplit =>
    obtain ⟨rfl, rfl⟩ := split?_eq_some_iff.1 hsplit
    split at htext
    · next s' hutf8 =>
      obtain ⟨rfl, rfl⟩ := Prod.mk.inj (Except.ok.inj htext)
      obtain rfl := utf8_of_ofUtf8 hutf8
      exact ⟨word ++ utf8 s', (List.append_assoc _ _ _).symm, .intro hlength⟩
    · contradiction

/-- A scalar is read behind the word of its kind. -/
theorem writes_of_readScalar {kind : Nat} {s : Scalar} {word b rest : Bytes}
    (hkind : WritesWord 4 word kind) (h : readScalar kind b = .ok (s, rest)) :
    ∃ front, b = front ++ rest ∧ Writes (word ++ front) (.scalar s) := by
  unfold readScalar at h
  split at h
  · cases h
    exact ⟨[], rfl, by rw [List.append_nil]; exact .null hkind⟩
  · obtain ⟨⟨n, behind⟩, hword, hbyte⟩ := bind_eq_ok h
    obtain ⟨front, rfl, hfront⟩ := writesWord_of_readWord hword
    have hfront := littleEndian_of_writesWord hfront
    simp only at hbyte
    split at hbyte
    · cases hbyte
      exact ⟨front, rfl, hfront ▸ .bool false hkind⟩
    · cases hbyte
      exact ⟨front, rfl, hfront ▸ .bool true hkind⟩
    · contradiction
  · obtain ⟨⟨n, behind⟩, hword, hok⟩ := bind_eq_ok h
    cases hok
    obtain ⟨front, rfl, hlength, rfl⟩ := writesWord_of_readWord hword
    refine ⟨front, rfl, .int hkind ⟨hlength, ?_⟩⟩
    have hlt := ofLittleEndian_lt front
    rw [hlength] at hlt
    simp [Nat.mod_eq_of_lt hlt]
  · obtain ⟨⟨n, behind⟩, hword, hok⟩ := bind_eq_ok h
    cases hok
    obtain ⟨front, rfl, hlength, rfl⟩ := writesWord_of_readWord hword
    refine ⟨front, rfl, .float hkind ⟨hlength, ?_⟩⟩
    have hlt := ofLittleEndian_lt front
    rw [hlength] at hlt
    simp [Binary64.ofWord, Nat.mod_eq_of_lt hlt]
  · obtain ⟨⟨text, behind⟩, htext, hok⟩ := bind_eq_ok h
    cases hok
    obtain ⟨front, rfl, hwrites⟩ := writesText_of_readText htext
    exact ⟨front, rfl, .text hkind hwrites⟩
  · contradiction

mutual

/-- A reader has read the bytes of the tree that it gives. -/
theorem writes_of_readTreeWithin {fuel : Nat} {t : Tree} {b rest : Bytes}
    (h : readTreeWithin fuel b = .ok (t, rest)) : ∃ front, b = front ++ rest ∧ Writes front t := by
  match fuel with
  | 0 => contradiction
  | fuel + 1 =>
    rw [readTreeWithin] at h
    obtain ⟨⟨kind, behind⟩, hkind, htree⟩ := bind_eq_ok h
    obtain ⟨word, rfl, hword⟩ := writesWord_of_readWord hkind
    simp only at htree
    split at htree
    · next hrecord =>
      obtain ⟨⟨count, behind'⟩, hcount, hbody⟩ := bind_eq_ok htree
      obtain ⟨⟨fields, rest'⟩, hfields, hok⟩ := bind_eq_ok hbody
      cases hok
      obtain ⟨countWord, rfl, hcountWord⟩ := writesWord_of_readWord hcount
      obtain ⟨rfl, body, rfl, hwrites⟩ := writes_of_readFieldsWithin hfields
      exact ⟨word ++ (countWord ++ body), by simp, .record (hrecord ▸ hword) hcountWord hwrites⟩
    · obtain ⟨⟨s, rest'⟩, hs, hok⟩ := bind_eq_ok htree
      cases hok
      obtain ⟨front, rfl, hwrites⟩ := writes_of_readScalar hword hs
      exact ⟨word ++ front, by simp, hwrites⟩

/-- So it is with fields, as many as were asked for. -/
theorem writes_of_readFieldsWithin {fuel count : Nat} {fields : List (String × Tree)}
    {b rest : Bytes} (h : readFieldsWithin fuel count b = .ok (fields, rest)) :
    fields.length = count ∧ ∃ front, b = front ++ rest ∧ WritesFields front fields := by
  match fuel, count with
  | _, 0 =>
    simp only [readFieldsWithin] at h
    cases h
    exact ⟨rfl, [], rfl, .nil⟩
  | 0, _ + 1 => contradiction
  | fuel + 1, count + 1 =>
    rw [readFieldsWithin] at h
    obtain ⟨⟨name, behind⟩, hname, hfield⟩ := bind_eq_ok h
    obtain ⟨⟨t, behind'⟩, htree, hbody⟩ := bind_eq_ok hfield
    obtain ⟨⟨others, rest'⟩, hothers, hok⟩ := bind_eq_ok hbody
    cases hok
    obtain ⟨text, rfl, htext⟩ := writesText_of_readText hname
    obtain ⟨tree, rfl, hwrites⟩ := writes_of_readTreeWithin htree
    obtain ⟨rfl, body, rfl, hwrites'⟩ := writes_of_readFieldsWithin hothers
    exact ⟨rfl, text ++ (tree ++ body), by simp, .cons htext hwrites hwrites'⟩

end

/-- What begins with the bytes of a tree is read as the tree, if it keeps to the limit. -/
theorem readTree_of_writes {front : Bytes} {t : Tree} (h : Writes front t) (rest : Bytes)
    (hlimit : (front ++ rest).length ≤ maxSize) : readTree (front ++ rest) = .ok (t, rest) := by
  obtain rfl := encodeTree_of_writes h
  rw [List.length_append, length_encodeTree] at hlimit
  have hmax : maxSize < 2 ^ 64 := by decide
  refine readTreeWithin_encodeTree t _ rest ?_ (by omega)
  rw [List.length_append, length_encodeTree]
  omega

end Codec

/-! ## Names that are repeated -/

section LastEntry

variable {α : Type} {l : List (String × α)} {name : String} {a : α}

/-- Looking from the end finds the last entry of a name. -/
theorem Entries.lookup_reverse_eq_some_iff :
    l.reverse.lookup name = some a ↔
      ∃ before after, l = before ++ (name, a) :: after ∧ name ∉ after.map Prod.fst := by
  rw [List.lookup_eq_some_iff]
  constructor
  · rintro ⟨after, before, hl, hafter⟩
    refine ⟨before.reverse, after.reverse, ?_, fun hname => ?_⟩
    · rw [← List.reverse_reverse l, hl]
      simp
    · obtain ⟨p, hp, rfl⟩ := List.mem_map.1 hname
      exact bne_iff_ne.1 (hafter p (List.mem_reverse.1 hp)) rfl
  · rintro ⟨before, after, rfl, hafter⟩
    refine ⟨after.reverse, before.reverse, by simp, fun p hp => ?_⟩
    rw [bne_iff_ne]
    rintro rfl
    exact hafter (List.mem_map_of_mem (List.mem_reverse.1 hp))

/-- A name that is there has a last entry. -/
theorem Entries.exists_last (h : name ∈ l.map Prod.fst) :
    ∃ before a after, l = before ++ (name, a) :: after ∧ name ∉ after.map Prod.fst := by
  obtain ⟨p, hp, rfl⟩ := List.mem_map.1 h
  cases hl : l.reverse.lookup p.1 with
  | none => exact absurd rfl (Entries.ne_of_lookup_eq_none hl (List.mem_reverse.2 hp))
  | some a =>
    obtain ⟨before, after, hl⟩ := Entries.lookup_reverse_eq_some_iff.1 hl
    exact ⟨before, a, after, hl⟩

/-- A table made of a list holds the last entry of every name. -/
theorem Table.mem_ofList_iff :
    (name, a) ∈ (Table.ofList l).toList ↔
      ∃ before after, l = before ++ (name, a) :: after ∧ name ∉ after.map Prod.fst := by
  rw [Table.mem_toList_iff, Table.get?_ofList, Entries.lookup_reverse_eq_some_iff]

end LastEntry

namespace Tree

/-- A tree stands for another one: in every record that lists each name of the first once, in
ascending order, with what the last field of that name stands for. -/
inductive Settles : Tree → Tree → Prop where
  | scalar (s : Scalar) : Settles (.scalar s) (.scalar s)
  | record {fields settled : List (String × Tree)} : Entries.Ascending settled →
      (∀ name, name ∈ settled.map Prod.fst ↔ name ∈ fields.map Prod.fst) →
      (∀ before name t after u, fields = before ++ (name, t) :: after → name ∉ after.map Prod.fst →
        (name, u) ∈ settled → Settles t u) →
      Settles (.record fields) (.record settled)

variable {fields : List (String × Tree)} {name : String} {t u : Tree}

/-- The fields of a record in normal form. -/
theorem mem_normal_iff :
    (name, u) ∈ (Table.ofList (fields.map fun p => (p.1, normal p.2))).toList ↔
      ∃ before t after, fields = before ++ (name, t) :: after ∧ name ∉ after.map Prod.fst ∧
        normal t = u := by
  rw [Table.mem_ofList_iff]
  constructor
  · rintro ⟨before, after, hfields, hafter⟩
    obtain ⟨before, _, rfl, -, hbehind⟩ := List.map_eq_append_iff.1 hfields
    obtain ⟨⟨_, t⟩, after, rfl, hname, rfl⟩ := List.map_eq_cons_iff.1 hbehind
    cases hname
    exact ⟨before, t, after, rfl, by simpa using hafter, rfl⟩
  · rintro ⟨before, t, after, rfl, hafter, rfl⟩
    exact ⟨_, _, List.map_append, by simpa using hafter⟩

/-- Every tree stands for its normal form, -/
theorem settles_normal (t : Tree) : Settles t (normal t) := by
  induction t using Tree.induction with
  | scalar s => exact .scalar s
  | record fields ih =>
    rw [normal_record]
    refine .record (Table.ascending _) (fun name => ?_)
      fun before name t after u hfields hafter hu => ?_
    · constructor
      · intro hname
        obtain ⟨⟨name, u⟩, hu, rfl⟩ := List.mem_map.1 hname
        obtain ⟨before, t, after, rfl, -, -⟩ := mem_normal_iff.1 hu
        simp
      · intro hname
        obtain ⟨before, t, after, hfields, hafter⟩ := Entries.exists_last hname
        exact List.mem_map_of_mem (mem_normal_iff.2 ⟨before, t, after, hfields, hafter, rfl⟩)
    · obtain ⟨before', t', after', hfields', hafter', rfl⟩ := mem_normal_iff.1 hu
      have hlast := Entries.lookup_reverse_eq_some_iff.2 ⟨before, after, hfields, hafter⟩
      have hlast' := Entries.lookup_reverse_eq_some_iff.2 ⟨before', after', hfields', hafter'⟩
      obtain rfl : t = t' := Option.some.inj (hlast.symm.trans hlast')
      exact ih (name, t) (by simp [hfields])

/-- and for nothing else. -/
theorem eq_normal_of_settles (h : Settles t u) : u = normal t := by
  induction h with
  | scalar s => rfl
  | @record fields settled hascending hnames _ ih =>
    rw [normal_record]
    refine congrArg record (Table.eq_of_mem_iff Prod.fst hascending (Table.ascending _)
      fun ⟨name, u⟩ => ?_)
    rw [mem_normal_iff]
    constructor
    · intro hu
      obtain ⟨before, t, after, hfields, hafter⟩ :=
        Entries.exists_last ((hnames name).1 (List.mem_map_of_mem hu))
      exact ⟨before, t, after, hfields, hafter, (ih before name t after u hfields hafter hu).symm⟩
    · rintro ⟨before, t, after, hfields, hafter, rfl⟩
      have hname : name ∈ settled.map Prod.fst := (hnames name).2 (by simp [hfields])
      obtain ⟨⟨_, u⟩, hu, rfl⟩ := List.mem_map.1 hname
      rwa [← ih before _ t after u hfields hafter hu]

end Tree

/-! ## Values -/

namespace Value

/-- What a byte string is read as, if it keeps to the limit. -/
theorem handle_decode_of_length_le {b : Bytes} (h : b.length ≤ Codec.maxSize) :
    MapHandle.decode b =
      match Codec.readTree b with
      | .ok (t, _) => .ok (ofTree t)
      | .error e => .error (.serialization e.message) := by
  rw [MapHandle.decode, decode, if_pos h]
  cases Codec.readTree b <;> rfl

/-- Bytes are read as a value exactly if they keep to the limit and begin with the bytes of a tree
that stands for it; all others are refused. -/
theorem decode_accepts_exactly (b : Bytes) :
    (∀ v, MapHandle.decode b = .ok v ↔ b.length ≤ Codec.maxSize ∧
      ∃ front rest t, b = front ++ rest ∧ Codec.Writes front t ∧ t.Settles v.tree) ∧
    (¬(b.length ≤ Codec.maxSize ∧ ∃ front rest t, b = front ++ rest ∧ Codec.Writes front t) →
      ∃ e : CodecError, MapHandle.decode b = .error (.serialization e.message)) := by
  by_cases hlimit : b.length ≤ Codec.maxSize
  · rw [handle_decode_of_length_le hlimit]
    cases hread : Codec.readTree b with
    | ok result =>
      obtain ⟨t, rest⟩ := result
      obtain ⟨front, rfl, hwrites⟩ := Codec.writes_of_readTreeWithin hread
      refine ⟨fun v => ?_, fun hnone => absurd ⟨hlimit, front, rest, t, rfl, hwrites⟩ hnone⟩
      constructor
      · rintro ⟨⟩
        exact ⟨hlimit, front, rest, t, rfl, hwrites, t.settles_normal⟩
      · rintro ⟨-, front', rest', t', happend, hwrites', hsettles⟩
        rw [happend] at hread hlimit
        obtain ⟨rfl, rfl⟩ := Prod.mk.inj (Except.ok.inj
          (hread.symm.trans (Codec.readTree_of_writes hwrites' rest' hlimit)))
        exact congrArg Except.ok (eq_of_tree_eq (Tree.eq_normal_of_settles hsettles).symm)
    | error e =>
      refine ⟨fun v => ⟨fun h => by contradiction, ?_⟩, fun _ => ⟨e, rfl⟩⟩
      rintro ⟨-, front, rest, t, rfl, hwrites, -⟩
      rw [Codec.readTree_of_writes hwrites rest hlimit] at hread
      contradiction
  · have hdecode : MapHandle.decode b =
        .error (.serialization (CodecError.tooLarge b.length).message) := by
      rw [MapHandle.decode, decode, if_neg hlimit]
    rw [hdecode]
    exact ⟨fun v => ⟨fun h => by contradiction, fun h => absurd h.1 hlimit⟩, fun _ => ⟨_, rfl⟩⟩

/-- A record that lists one name twice, with a byte behind it. -/
example :
    (decode (Codec.encodeTree (.record [("a", .scalar .null), ("a", .scalar (.bool true))]) ++
      [7])).toOption =
    some (record [("a", bool true)]) := by decide +kernel

end Value

end ClusterMap
