import ClusterMap.Proofs.Key.Numbers

/-!
# Keys of calendar inputs

A text of digits that something else follows tells its number and what follows, so a calendar text
tells its fields one after the other: the sign and the year, month and day, hour, minute and second,
and the fraction, by its length. So a date, a date with a time and one in universal time have the
same key just if they are the same (`canonicalize_calendar_eq_iff`), and none has the key of a
number, which has no minus behind its first character.
-/

namespace ClusterMap

open Number

/-! ## Digits and what follows them -/

namespace Number

/-- Whether a text does not go on with a digit. -/
def NoDigitFirst (cs : List Char) : Prop := ∀ c ∈ cs.head?, c.isDigit = false

/-- A text that begins with something else than a digit begins with no digit. -/
theorem NoDigitFirst.cons {c : Char} (h : c.isDigit = false) (cs : List Char) :
    NoDigitFirst (c :: cs) := by
  rintro d hd
  obtain rfl : c = d := Option.some.inj hd
  exact h

/-- Digits end where something else follows. -/
theorem digits_append_inj {ds es cs cs' : List Char} (hds : ds.all Char.isDigit = true)
    (hes : es.all Char.isDigit = true) (hcs : NoDigitFirst cs) (hcs' : NoDigitFirst cs')
    (h : ds ++ cs = es ++ cs') : ds = es ∧ cs = cs' := by
  have hfront : ds = es := by
    rw [← takeWhile_append_of_head hds hcs, h, takeWhile_append_of_head hes hcs']
  subst hfront
  exact ⟨rfl, List.append_cancel_left h⟩

/-- A padded number has its zeros before its digits. -/
theorem toList_padded (width n : Nat) :
    (padded width n).toList = List.replicate (width - (Nat.repr n).length) '0' ++
      (Nat.repr n).toList := by
  rw [padded, String.toList_append, String.toList_ofList]

/-- A padded number has digits only. -/
theorem all_isDigit_padded (width n : Nat) : (padded width n).toList.all Char.isDigit = true := by
  rw [toList_padded, List.all_append, all_isDigit_repr, Bool.and_true, List.all_eq_true]
  intro c hc
  rw [List.eq_of_mem_replicate hc]
  rfl

/-- A padded number has a digit. -/
theorem padded_ne_nil (width n : Nat) : (padded width n).toList ≠ [] := by
  rw [toList_padded]
  exact List.append_ne_nil_of_right_ne_nil _ (repr_ne_nil n)

/-- Zeros in front are worth nothing. -/
theorem ofDigitChars_padded (width n : Nat) :
    Nat.ofDigitChars 10 (padded width n).toList 0 = n := by
  rw [toList_padded, Nat.ofDigitChars_append, Nat.ofDigitChars_replicate_zero, Nat.mul_zero,
    ofDigitChars_repr]

/-- Numbers that are padded to one width are told apart by their digits. -/
theorem padded_injective {width m n : Nat} (h : (padded width m).toList = (padded width n).toList) :
    m = n := by
  rw [← ofDigitChars_padded width m, h, ofDigitChars_padded]

/-- A number that the width holds is written with just as many digits. -/
theorem length_padded {width n : Nat} (hpos : 0 < width) (hn : n < 10 ^ width) :
    (padded width n).toList.length = width := by
  have hlength : (Nat.repr n).length ≤ width := (Nat.length_repr_le_iff hpos).2 hn
  rw [toList_padded, List.length_append, List.length_replicate, String.length_toList]
  omega

/-- Digits of a fixed width, or more of them, tell the number and what follows. -/
theorem padded_append_inj {width m n : Nat} {cs cs' : List Char} (hcs : NoDigitFirst cs)
    (hcs' : NoDigitFirst cs') (h : (padded width m).toList ++ cs = (padded width n).toList ++ cs') :
    m = n ∧ cs = cs' := by
  obtain ⟨hdigits, hrest⟩ :=
    digits_append_inj (all_isDigit_padded width m) (all_isDigit_padded width n) hcs hcs' h
  exact ⟨padded_injective hdigits, hrest⟩

end Number

/-! ## Dates -/

/-- The sign of a year and its digits are cut apart. -/
theorem splitSign_yearText (year : Int) (cs : List Char) :
    splitSign ((yearText year).toList ++ cs) =
      (decide (year < 0), (padded 4 year.natAbs).toList ++ cs) := by
  obtain ⟨c, digits, hdigits⟩ := List.exists_cons_of_ne_nil (padded_ne_nil 4 year.natAbs)
  have hc : c.isDigit = true :=
    List.all_eq_true.1 (all_isDigit_padded 4 year.natAbs) c (hdigits ▸ List.mem_cons_self)
  rw [yearText, String.toList_append, hdigits]
  by_cases hneg : year < 0
  · rw [if_pos hneg, decide_eq_true hneg]
    rfl
  · rw [if_neg hneg, decide_eq_false hneg]
    split
    · rfl
    · exact splitSign_of_isDigit hc (digits ++ cs)

/-- A year tells itself and what follows. -/
theorem yearText_append_inj {year year' : Int} {cs cs' : List Char} (hcs : NoDigitFirst cs)
    (hcs' : NoDigitFirst cs') (h : (yearText year).toList ++ cs = (yearText year').toList ++ cs') :
    year = year' ∧ cs = cs' := by
  have hsplit := congrArg splitSign h
  rw [splitSign_yearText, splitSign_yearText, Prod.mk.injEq, decide_eq_decide] at hsplit
  obtain ⟨habs, hrest⟩ := padded_append_inj hcs hcs' hsplit.2
  have hsign := hsplit.1
  exact ⟨by omega, hrest⟩

/-- The characters of a date. -/
theorem Date.toList_text (d : Date) : d.text.toList =
    (yearText d.year).toList ++ '-' :: ((padded 2 d.month).toList ++ '-' ::
      (padded 2 d.day).toList) := by
  simp [Date.text]

/-- A date tells itself and what follows. -/
theorem Date.text_append_inj {d e : Date} {cs cs' : List Char} (hcs : NoDigitFirst cs)
    (hcs' : NoDigitFirst cs') (h : d.text.toList ++ cs = e.text.toList ++ cs') :
    d = e ∧ cs = cs' := by
  have hhyphen : ∀ cs, NoDigitFirst ('-' :: cs) := NoDigitFirst.cons rfl
  simp only [Date.toList_text, List.append_assoc, List.cons_append] at h
  obtain ⟨hyear, h⟩ := yearText_append_inj (hhyphen _) (hhyphen _) h
  obtain ⟨hmonth, h⟩ := padded_append_inj (hhyphen _) (hhyphen _) (List.cons.inj h).2
  obtain ⟨hday, hrest⟩ := padded_append_inj hcs hcs' (List.cons.inj h).2
  cases d
  cases e
  cases hyear
  cases hmonth
  cases hday
  exact ⟨rfl, hrest⟩

/-! ## Times -/

/-- Whether a text does not go on with what a fraction may begin or go on with. -/
def NoFractionFirst (cs : List Char) : Prop := NoDigitFirst cs ∧ '.' ∉ cs.head?

/-- The fraction is empty, or a point and as many digits as hold the nanoseconds. -/
theorem toList_fractionText {nanos : Nat} (h : nanos < 1000000000) :
    nanos = 0 ∧ (fractionText nanos).toList = [] ∨
      ∃ width n, 0 < width ∧ n < 10 ^ width ∧ nanos = n * 10 ^ (9 - width) ∧
        (fractionText nanos).toList = '.' :: (padded width n).toList := by
  unfold fractionText
  split
  · next hzero => exact .inl ⟨hzero, rfl⟩
  · split
    · next hmillis =>
        exact .inr ⟨3, nanos / 1000000, by decide, by omega, by omega, String.toList_append⟩
    · split
      · next hmicros =>
          exact .inr ⟨6, nanos / 1000, by decide, by omega, by omega, String.toList_append⟩
      · exact .inr ⟨9, nanos, by decide, by omega, by omega, String.toList_append⟩

/-- A fraction tells the nanoseconds, by its length and its digits, and what follows. -/
theorem fractionText_append_inj {m n : Nat} {cs cs' : List Char} (hm : m < 1000000000)
    (hn : n < 1000000000) (hcs : NoFractionFirst cs) (hcs' : NoFractionFirst cs')
    (h : (fractionText m).toList ++ cs = (fractionText n).toList ++ cs') : m = n ∧ cs = cs' := by
  obtain ⟨hzero, hempty⟩ | ⟨width, i, hpos, hi, hnanos, hdigits⟩ := toList_fractionText hm <;>
    obtain ⟨hzero', hempty'⟩ | ⟨width', j, hpos', hj, hnanos', hdigits'⟩ := toList_fractionText hn
  · rw [hempty, hempty'] at h
    exact ⟨hzero.trans hzero'.symm, h⟩
  · rw [hempty, hdigits', List.nil_append] at h
    exact absurd (by rw [h]; rfl) hcs.2
  · rw [hdigits, hempty', List.nil_append] at h
    exact absurd (by rw [← h]; rfl) hcs'.2
  · rw [hdigits, hdigits'] at h
    obtain ⟨hsame, hrest⟩ :=
      digits_append_inj (all_isDigit_padded width i) (all_isDigit_padded width' j) hcs.1
      hcs'.1 (List.cons.inj h).2
    have hlength := congrArg List.length hsame
    rw [length_padded hpos hi, length_padded hpos' hj] at hlength
    subst hlength
    exact ⟨by rw [hnanos, hnanos', padded_injective hsame], hrest⟩

/-- The characters of a time of day. -/
theorem TimeOfDay.toList_text (t : TimeOfDay) : t.text.toList =
    (padded 2 t.hour).toList ++ ':' :: ((padded 2 t.minute).toList ++
      ':' :: ((padded 2 (t.second + t.nanos / 1000000000)).toList ++
        (fractionText (t.nanos % 1000000000)).toList)) := by
  simp [TimeOfDay.text]

/-- A second is not followed by a further digit. -/
theorem noDigitFirst_fractionText {cs : List Char} (hcs : NoDigitFirst cs) {nanos : Nat}
    (h : nanos < 1000000000) :
    NoDigitFirst ((fractionText nanos).toList ++ cs) := by
  obtain ⟨-, hnone⟩ | ⟨width, n, -, -, -, hdigits⟩ := toList_fractionText h
  · rwa [hnone]
  · rw [hdigits]
    exact .cons rfl _

/-- A time tells itself and what follows. -/
theorem TimeOfDay.text_append_inj {t u : TimeOfDay} {cs cs' : List Char} (hcs : NoFractionFirst cs)
    (hcs' : NoFractionFirst cs') (h : t.text.toList ++ cs = u.text.toList ++ cs') :
    t = u ∧ cs = cs' := by
  have hcolon : ∀ cs, NoDigitFirst (':' :: cs) := NoDigitFirst.cons rfl
  have hnanos : ∀ t : TimeOfDay, t.nanos % 1000000000 < 1000000000 :=
    fun t => Nat.mod_lt _ (by decide)
  simp only [TimeOfDay.toList_text, List.append_assoc, List.cons_append] at h
  obtain ⟨hhour, h⟩ := padded_append_inj (hcolon _) (hcolon _) h
  obtain ⟨hminute, h⟩ := padded_append_inj (hcolon _) (hcolon _) (List.cons.inj h).2
  obtain ⟨hsecond, h⟩ := padded_append_inj (noDigitFirst_fractionText hcs.1 (hnanos t))
    (noDigitFirst_fractionText hcs'.1 (hnanos u)) (List.cons.inj h).2
  obtain ⟨hfraction, hrest⟩ := fractionText_append_inj (hnanos t) (hnanos u) hcs hcs' h
  -- A sixtieth second is a leap second, so the second and the fraction tell whether the nanoseconds
  -- go beyond one.
  have hsame : t.second = u.second ∧ t.nanos = u.nanos := by
    have ht := t.nanos_of_leap
    have hu := u.nanos_of_leap
    have ht' := t.second_lt
    have hu' := u.second_lt
    have ht'' := t.nanos_lt
    have hu'' := u.nanos_lt
    omega
  obtain ⟨hsecond, hnanos⟩ := hsame
  cases t
  cases u
  cases hhour
  cases hminute
  cases hsecond
  cases hnanos
  exact ⟨rfl, hrest⟩

/-- Date and time tell a point in time. -/
theorem DateTime.eq_of_parts {t u : DateTime} (hdate : t.date = u.date) (htime : t.time = u.time) :
    t = u := by
  cases t
  cases u
  cases hdate
  cases htime
  rfl

/-! ## Inputs -/

namespace KeyInput

variable {κ : Type}

/-- Whether an input is a date, a date with a time, or one in universal time; `d` is the day, and
`rest` is what follows the text of the day. -/
inductive OnDay : KeyInput κ → Date → List Char → Prop
  | date (d : Date) : OnDay (.date d) d []
  | dateTime (t : DateTime) : OnDay (.dateTime t) t.date ('T' :: t.time.text.toList)
  | utc (t : DateTime) : OnDay (.utc t) t.date ('T' :: (t.time.text.toList ++ ['Z']))

/-- Whether an input is a date, a date with a time, or one in universal time. -/
def IsCalendar : KeyInput κ → Prop
  | .date _ | .dateTime _ | .utc _ => True
  | _ => False

/-- Whether an input is an integer or a double. -/
def IsNumeric : KeyInput κ → Prop
  | .int _ | .uint _ | .float _ => True
  | _ => False

variable {a b : KeyInput κ} {d e : Date} {rest rest' : List Char}

/-- Every key of the calendar is on some day. -/
theorem IsCalendar.exists_onDay (h : a.IsCalendar) : ∃ d rest, a.OnDay d rest := by
  cases a with
  | date d => exact ⟨d, [], .date d⟩
  | dateTime t => exact ⟨_, _, .dateTime t⟩
  | utc t => exact ⟨_, _, .utc t⟩
  | _ => exact h.elim

/-- An empty text begins with no digit. -/
theorem noDigitFirst_nil : NoDigitFirst [] := fun c hc => by contradiction

/-- A text behind a day does not go on with a digit. -/
theorem OnDay.noDigitFirst (h : a.OnDay d rest) : NoDigitFirst rest := by
  cases h with
  | date => exact noDigitFirst_nil
  | dateTime t => exact .cons rfl _
  | utc t => exact .cons rfl _

/-- The day and what follows its text tell the input: the times are told by their texts, and
universal time by the letter at its end. -/
theorem OnDay.unique (ha : a.OnDay d rest) (hb : b.OnDay e rest') (hd : d = e)
    (hrest : rest = rest') : a = b := by
  have hnone : NoFractionFirst [] := ⟨noDigitFirst_nil, by decide⟩
  have hletter : NoFractionFirst ['Z'] := ⟨.cons rfl [], by decide⟩
  cases ha with
  | date d =>
    cases hb with
    | date e => rw [hd]
    | dateTime u => contradiction
    | utc u => contradiction
  | dateTime t =>
    cases hb with
    | date e => contradiction
    | dateTime u =>
      have htime : t.time = u.time :=
        (TimeOfDay.text_append_inj hnone hnone (congrArg (· ++ []) (List.cons.inj hrest).2)).1
      rw [DateTime.eq_of_parts hd htime]
    | utc u =>
      have hend : t.time.text.toList ++ [] = u.time.text.toList ++ ['Z'] := by
        rw [List.append_nil, (List.cons.inj hrest).2]
      exact absurd (TimeOfDay.text_append_inj hnone hletter hend).2 (List.cons_ne_nil _ _).symm
  | utc t =>
    cases hb with
    | date e => contradiction
    | dateTime u =>
      have hend : u.time.text.toList ++ [] = t.time.text.toList ++ ['Z'] := by
        rw [List.append_nil, (List.cons.inj hrest).2]
      exact absurd (TimeOfDay.text_append_inj hnone hletter hend).2 (List.cons_ne_nil _ _).symm
    | utc u =>
      have htime : t.time = u.time :=
        (TimeOfDay.text_append_inj hletter hletter (List.cons.inj hrest).2).1
      rw [DateTime.eq_of_parts hd htime]

end KeyInput

/-! ## Keys -/

/-- The text of a number has a minus at its front if anywhere. -/
theorem minus_not_mem_tail_shown (n : Int) : '-' ∉ (shown n).toList.tail := by
  have hpositional := minus_not_mem_positional n.natAbs
  rw [toList_shown]
  split
  · rwa [List.singleton_append, List.tail_cons]
  · rw [List.nil_append]
    exact fun h => hpositional (List.mem_of_mem_tail h)

/-- The text of a date has a minus behind its front. -/
theorem Date.minus_mem_tail_text (d : Date) (rest : List Char) :
    '-' ∈ (d.text.toList ++ rest).tail := by
  have hyear : (yearText d.year).toList ≠ [] := by
    rw [yearText, String.toList_append]
    exact List.append_ne_nil_of_right_ne_nil _ (padded_ne_nil 4 d.year.natAbs)
  obtain ⟨c, cs, hcs⟩ := List.exists_cons_of_ne_nil hyear
  rw [Date.toList_text, hcs]
  simp

namespace KeyCodec

variable {κ : Type} [CustomKey κ] (codec : KeyCodec κ)

/-- The canonical text of a key on a day begins with the day. -/
theorem canonicalize_of_onDay {a : KeyInput κ} {d : Date} {rest : List Char} (h : a.OnDay d rest) :
    ∃ k, codec.canonicalize a = .ok k ∧ k.text.toList = d.text.toList ++ rest := by
  cases h with
  | date d => exact ⟨_, rfl, (List.append_nil _).symm⟩
  | dateTime t => exact ⟨_, rfl, by simp [DateTime.text]⟩
  | utc t => exact ⟨_, rfl, by simp [DateTime.text]⟩

/-- The canonical text of a number is that of an integer in decimal units. -/
theorem exists_shown_of_isNumeric {b : KeyInput κ} (h : b.IsNumeric) {k : Key}
    (hk : codec.canonicalize b = .ok k) :
    ∃ n, k.text = shown n := by
  have hshown : ∀ {p}, b.number? = some p → ∃ n, k.text = shown n := fun hp => by
    cases hk.symm.trans (codec.canonicalize_of_number hp)
    exact ⟨_, rfl⟩
  cases b with
  | int n => exact hshown rfl
  | uint n => exact hshown rfl
  | float x =>
    by_cases hfinite : x.isFinite = true
    · exact hshown (KeyInput.number?_float hfinite)
    · rw [canonicalize, floatText, if_neg hfinite] at hk
      contradiction
  | _ => exact h.elim

/-- A date, a date with a time and one in universal time have a key each. The keys of two are equal
just if both are of the same kind and agree in every field, and none is the key of an integer or a
double. -/
theorem canonicalize_calendar_eq_iff {a : KeyInput κ} (ha : a.IsCalendar) :
    ∃ k, codec.canonicalize a = .ok k ∧
      (∀ b : KeyInput κ, b.IsCalendar → ∃ l, codec.canonicalize b = .ok l ∧ (k = l ↔ a = b)) ∧
      (∀ b : KeyInput κ, b.IsNumeric → codec.canonicalize b ≠ .ok k) := by
  obtain ⟨d, rest, hd⟩ := ha.exists_onDay
  obtain ⟨k, hk, hktext⟩ := codec.canonicalize_of_onDay hd
  refine ⟨k, hk, fun b hb => ?_, fun b hb hkb => ?_⟩
  · obtain ⟨e, rest', he⟩ := hb.exists_onDay
    obtain ⟨l, hl, hltext⟩ := codec.canonicalize_of_onDay he
    refine ⟨l, hl, ?_, ?_⟩
    · rintro rfl
      obtain ⟨hday, hrest⟩ :=
        Date.text_append_inj hd.noDigitFirst he.noDigitFirst (hktext.symm.trans hltext)
      exact hd.unique he hday hrest
    · rintro rfl
      exact Except.ok.inj (hk.symm.trans hl)
  · obtain ⟨n, hn⟩ := codec.exists_shown_of_isNumeric hb hkb
    have hminus := d.minus_mem_tail_text rest
    rw [← hktext, hn] at hminus
    exact minus_not_mem_tail_shown n hminus

/-- A leap second of a leap day before the year zero, with and without universal time. -/
theorem canonicalize_calendar_eq_iff_of_leap :
    let _ : CustomKey Empty := ⟨Empty.elim⟩
    let codec : KeyCodec Empty := .empty
    let t : DateTime := ⟨⟨-4, 2, 29, by decide, by decide⟩,
      ⟨23, 59, 59, 1500000000, by decide, by decide, by decide, by decide, fun _ => rfl⟩⟩
    ∃ k l, codec.canonicalize (.utc t) = .ok k ∧ codec.canonicalize (.dateTime t) = .ok l ∧
      k.text = "-0004-02-29T23:59:60.500Z" ∧ k ≠ l := by
  intro _ codec t
  obtain ⟨k, hk, hcalendar, -⟩ := codec.canonicalize_calendar_eq_iff (a := .utc t) trivial
  obtain ⟨l, hl, hiff⟩ := hcalendar (.dateTime t) trivial
  refine ⟨k, l, hk, hl, ?_, fun hkl => absurd (hiff.1 hkl) (by decide)⟩
  cases hk
  decide

end KeyCodec

end ClusterMap
