import ClusterMap.Client.MapHandle
import ClusterMap.Proofs.Value.RoundTrip

/-!
# Where the bytes of a value end

A reader that succeeds takes the bytes it needs and does not look at what follows them, nor does it
mind to be given more fuel. So bytes that stop inside a value are never read as a value: with the
missing bytes behind them the reader would have to stop at the same place, but it goes on to the
end. Main statements: `readTreeWithin_append`, a reader does not look ahead; `decode_stops_at_end`,
a value is read back from its bytes whatever follows them, and from nothing that stops before their
end.
-/

namespace ClusterMap

namespace Codec

/-! ## Words, texts and scalars -/

theorem readWord_append {width n : Nat} {b rest : Bytes} (h : readWord width b = .ok (n, rest))
    (more : Bytes) :
    readWord width (b ++ more) = .ok (n, rest ++ more) := by
  unfold readWord at h
  split at h
  · next word rest' hsplit =>
    obtain ⟨rfl, rfl⟩ := Prod.mk.inj (Except.ok.inj h)
    have hmore := split?_append_right hsplit more
    simp only [readWord, hmore]
  · contradiction

theorem readText_append {s : String} {b rest : Bytes} (h : readText b = .ok (s, rest))
    (more : Bytes) :
    readText (b ++ more) = .ok (s, rest ++ more) := by
  obtain ⟨⟨length, behind⟩, hword, h⟩ := bind_eq_ok h
  have hword' := readWord_append hword more
  simp only at h
  split at h
  · contradiction
  · next front rest' hsplit =>
    have hsplit' := split?_append_right hsplit more
    split at h
    · next text hutf8 =>
      obtain ⟨rfl, rfl⟩ := Prod.mk.inj (Except.ok.inj h)
      simp only [readText, hword', bind, Except.bind, hsplit', hutf8]
    · contradiction

theorem readScalar_append {kind : Nat} {s : Scalar} {b rest : Bytes}
    (h : readScalar kind b = .ok (s, rest)) (more : Bytes) :
    readScalar kind (b ++ more) = .ok (s, rest ++ more) := by
  unfold readScalar at h
  split at h
  · cases h
    simp only [readScalar]
  · obtain ⟨⟨byte, behind⟩, hword, h⟩ := bind_eq_ok h
    have hword' := readWord_append hword more
    simp only at h
    split at h
    · cases h
      simp only [readScalar, hword', bind, Except.bind]
    · cases h
      simp only [readScalar, hword', bind, Except.bind]
    · contradiction
  · obtain ⟨⟨word, behind⟩, hword, hok⟩ := bind_eq_ok h
    cases hok
    simp only [readScalar, readWord_append hword more, bind, Except.bind]
  · obtain ⟨⟨word, behind⟩, hword, hok⟩ := bind_eq_ok h
    cases hok
    simp only [readScalar, readWord_append hword more, bind, Except.bind]
  · obtain ⟨⟨text, behind⟩, htext, hok⟩ := bind_eq_ok h
    cases hok
    simp only [readScalar, readText_append htext more, bind, Except.bind]
  · contradiction

/-! ## Trees -/

mutual

/-- A tree that is read is read again with more fuel and with more bytes behind it, which are left
alone. -/
theorem readTreeWithin_append {fuel fuel' : Nat} {t : Tree} {b rest : Bytes}
    (h : readTreeWithin fuel b = .ok (t, rest)) (hle : fuel ≤ fuel') (more : Bytes) :
    readTreeWithin fuel' (b ++ more) = .ok (t, rest ++ more) := by
  match fuel, fuel', hle with
  | 0, _, _ => contradiction
  | fuel + 1, fuel' + 1, hle =>
    have hfuel : fuel ≤ fuel' := Nat.le_of_succ_le_succ hle
    rw [readTreeWithin] at h
    obtain ⟨⟨kind, behind⟩, hkind, h⟩ := bind_eq_ok h
    have hkind' := readWord_append hkind more
    simp only at h
    split at h
    · next hrecord =>
      obtain ⟨⟨count, behind'⟩, hcount, h⟩ := bind_eq_ok h
      obtain ⟨⟨fields, rest'⟩, hfields, hok⟩ := bind_eq_ok h
      cases hok
      have hcount' := readWord_append hcount more
      have hfields' := readFieldsWithin_append hfields hfuel more
      simp only [readTreeWithin, hkind', bind, Except.bind, hrecord, if_true, hcount', hfields']
    · next hscalar =>
      obtain ⟨⟨s, rest'⟩, hs, hok⟩ := bind_eq_ok h
      cases hok
      have hs' := readScalar_append hs more
      simp only [readTreeWithin, hkind', bind, Except.bind, hscalar, if_false, hs']

/-- So it is with fields. -/
theorem readFieldsWithin_append {fuel fuel' count : Nat} {fields : List (String × Tree)}
    {b rest : Bytes} (h : readFieldsWithin fuel count b = .ok (fields, rest)) (hle : fuel ≤ fuel')
    (more : Bytes) :
    readFieldsWithin fuel' count (b ++ more) = .ok (fields, rest ++ more) := by
  match fuel, fuel', count, hle with
  | _, _, 0, _ =>
    simp only [readFieldsWithin] at h
    cases h
    simp only [readFieldsWithin]
  | 0, _, _ + 1, _ => contradiction
  | fuel + 1, fuel' + 1, count + 1, hle =>
    have hfuel : fuel ≤ fuel' := Nat.le_of_succ_le_succ hle
    rw [readFieldsWithin] at h
    obtain ⟨⟨name, behind⟩, hname, h⟩ := bind_eq_ok h
    obtain ⟨⟨t, behind'⟩, htree, h⟩ := bind_eq_ok h
    obtain ⟨⟨others, rest'⟩, hothers, hok⟩ := bind_eq_ok h
    cases hok
    have hname' := readText_append hname more
    have htree' := readTreeWithin_append htree hfuel more
    have hothers' := readFieldsWithin_append hothers hfuel more
    simp only [readFieldsWithin, hname', bind, Except.bind, htree', hothers']

end

end Codec

namespace Value

/-! ## Values -/

theorem encode_eq_ok_iff {v : Value} {b : Bytes} :
    v.encode = .ok b ↔ v.size ≤ Codec.maxSize ∧ Codec.encodeTree v.tree = b := by
  unfold encode
  split
  · next h => simp only [Except.ok.injEq, h, true_and]
  · next h => simp only [h, false_and, reduceCtorEq]

/-- Bytes that stop before the end of a value are not read as a value. -/
theorem exists_error_of_stops {v : Value} {front missing : Bytes}
    (happend : front ++ missing = Codec.encodeTree v.tree) (hmissing : missing ≠ [])
    (hsize : v.size ≤ Codec.maxSize) : ∃ e, decode front = .error e := by
  have hlength : (front ++ missing).length = v.size := by
    rw [happend]
    exact Codec.length_encodeTree v.tree
  have hfront : front.length ≤ v.size := by
    rw [← hlength, List.length_append]
    exact Nat.le_add_right front.length missing.length
  rw [decode, if_pos (Nat.le_trans hfront hsize)]
  cases hread : Codec.readTree front with
  | error e => exact ⟨e, rfl⟩
  | ok result =>
    obtain ⟨t, rest⟩ := result
    have hlimit : v.size < 2 ^ 64 := Nat.lt_of_le_of_lt hsize (by decide)
    have hwhole : Codec.readTreeWithin (v.size + 1) (front ++ missing) = .ok (v.tree, []) := by
      rw [happend, ← List.append_nil (Codec.encodeTree v.tree)]
      exact Codec.readTreeWithin_encodeTree v.tree _ [] (Nat.le_succ v.size) hlimit
    have hagain : Codec.readTreeWithin (v.size + 1) (front ++ missing) = .ok (t, rest ++ missing) :=
      Codec.readTreeWithin_append hread (Nat.succ_le_succ hfront) missing
    have hrest : rest ++ missing = [] := by
      rw [hwhole] at hagain
      exact (Prod.mk.inj (Except.ok.inj hagain)).2.symm
    exact absurd (List.append_eq_nil_iff.1 hrest).2 hmissing

/-- A value can be written exactly if its size keeps to the limit, and then takes as many bytes as
its size says. It is read back from them, whatever follows within the limit; what stops before their
end is refused; and they are no front of the bytes of another value. -/
theorem decode_stops_at_end (v : Value) :
    ((∃ b, v.encode = .ok b) ↔ v.size ≤ Codec.maxSize) ∧
      ∀ b, v.encode = .ok b →
        b.length = v.size ∧
          (∀ rest : Bytes, b.length + rest.length ≤ Codec.maxSize → decode (b ++ rest) = .ok v) ∧
          (∀ front missing : Bytes, front ++ missing = b → missing ≠ [] →
            ∃ e : CodecError, decode front = .error e ∧
              MapHandle.decode front = .error (.serialization e.message)) ∧
          ∀ (w : Value) (b' : Bytes), w.encode = .ok b' → b <+: b' → w = v := by
  constructor
  · simp only [encode_eq_ok_iff, exists_and_left, exists_eq', and_true]
  · intro b hb
    obtain ⟨hsize, rfl⟩ := encode_eq_ok_iff.1 hb
    have hlength : (Codec.encodeTree v.tree).length = v.size := Codec.length_encodeTree v.tree
    have hback : ∀ rest : Bytes, (Codec.encodeTree v.tree).length + rest.length ≤ Codec.maxSize →
        decode (Codec.encodeTree v.tree ++ rest) = .ok v := fun rest hrest => by
      rw [hlength] at hrest
      exact decode_encodeTree_append hrest
    refine ⟨hlength, hback, fun front missing happend hmissing => ?_, fun w b' hw hfront => ?_⟩
    · obtain ⟨e, he⟩ := exists_error_of_stops happend hmissing hsize
      refine ⟨e, he, ?_⟩
      simp only [MapHandle.decode, he]
    · obtain ⟨hsize', rfl⟩ := encode_eq_ok_iff.1 hw
      obtain ⟨rest, hrest⟩ := hfront
      have hlength' : (Codec.encodeTree w.tree).length = w.size := Codec.length_encodeTree w.tree
      have hv : decode (Codec.encodeTree w.tree) = .ok v := by
        rw [← hrest]
        refine hback rest ?_
        rw [← List.length_append, hrest, hlength']
        exact hsize'
      rw [decode_encodeTree hsize'] at hv
      exact Except.ok.inj hv

end Value

end ClusterMap
