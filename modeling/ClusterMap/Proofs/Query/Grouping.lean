import Mathlib.Logic.Relation
import ClusterMap.Proofs.Query.Comparisons
import ClusterMap.Proofs.Query.Composing
import ClusterMap.Proofs.Query.Slices

/-!
# Parentheses that make no difference

Which parentheses of a predicate may be dropped: those around a conjunction, as nothing binds
tighter than `AND`, and those around a disjunction with no `AND` next to it (`Drops`). What is read
does not change, and neither does it where such parentheses are added. The limit on open groups
would get in the way, as texts in between may exceed it; so tokens are followed without it
(`Draft.Leads`), and what is read with the limit is read without. Main statements:
`Draft.leads_of_conjunction`, `Draft.leads_of_disjunction`, a part of a predicate adds the same to
every draft; `Expr.writtenBy_iff_of_drops`; `Criteria.compile_grouped`.
-/

namespace ClusterMap

open Grammar Text

/-! ## Terms of an operand -/

namespace Expr

/-- The terms of a conjunction; anything else is its only one. -/
def factors : Expr → List Expr
  | and terms => terms
  | e => [e]

/-- The terms of a disjunction; anything else is its only one. -/
def disjuncts : Expr → List Expr
  | or terms => terms
  | e => [e]

variable {e : Expr}

/-- The factors of a normal expression are normal, and none is a conjunction. -/
theorem Normal.factors (h : e.Normal) :
    e.factors ≠ [] ∧ ∀ f ∈ e.factors, f.Normal ∧ ∀ l, f ≠ .and l := by
  cases h with
  | equal field literal => simp [Expr.factors, Normal.equal]
  | @and terms hlength hnormal hne =>
    have hcons : terms ≠ [] := List.ne_nil_of_length_pos (by omega)
    exact ⟨hcons, fun f hf => ⟨hnormal f hf, hne f hf⟩⟩
  | or hlength hnormal hne => simp [Expr.factors, Normal.or hlength hnormal hne]

/-- The disjuncts of a normal expression are normal, and none is a disjunction. -/
theorem Normal.disjuncts (h : e.Normal) :
    e.disjuncts ≠ [] ∧ ∀ f ∈ e.disjuncts, f.Normal ∧ ∀ l, f ≠ .or l := by
  cases h with
  | equal field literal => simp [Expr.disjuncts, Normal.equal]
  | and hlength hnormal hne => simp [Expr.disjuncts, Normal.and hlength hnormal hne]
  | @or terms hlength hnormal hne =>
    have hcons : terms ≠ [] := List.ne_nil_of_length_pos (by omega)
    exact ⟨hcons, fun f hf => ⟨hnormal f hf, hne f hf⟩⟩

/-- A conjunction of what two operands are the conjunctions of. -/
theorem Normal.and_factors {f : Expr} (he : e.Normal) (hf : f.Normal) :
    (Expr.and (e.factors ++ f.factors)).Normal := by
  obtain ⟨hne, he⟩ := he.factors
  obtain ⟨hne', hf⟩ := hf.factors
  have hpos : 0 < e.factors.length := List.length_pos_of_ne_nil hne
  have hpos' : 0 < f.factors.length := List.length_pos_of_ne_nil hne'
  have hlength : 2 ≤ (e.factors ++ f.factors).length := by
    rw [List.length_append]
    omega
  have hall : ∀ a ∈ e.factors ++ f.factors, a.Normal ∧ ∀ l, a ≠ .and l := fun a ha => by
    obtain ha | ha := List.mem_append.1 ha
    · exact he a ha
    · exact hf a ha
  exact .and hlength (fun a ha => (hall a ha).1) fun a ha => (hall a ha).2

end Expr

namespace Group

/-- A term adds its factors to a group. -/
theorem addTerm_eq (g : Group) (e : Expr) :
    g.addTerm e = ⟨g.conjunctions, e.factors.reverse ++ g.terms⟩ := by
  cases e <;> rfl

/-- Two terms add what the conjunction of their factors adds. -/
theorem addTerm_addTerm (g : Group) (e f : Expr) :
    (g.addTerm e).addTerm f = g.addTerm (.and (e.factors ++ f.factors)) := by
  simp [addTerm_eq, Expr.factors]

/-- An operand that is alone in its conjunction adds its disjuncts. -/
theorem allConjunctions_addTerm_of_normal {e : Expr} (he : e.Normal) {g : Group}
    (hterms : g.terms = []) :
    (g.addTerm e).allConjunctions = e.disjuncts.reverse ++ g.conjunctions := by
  obtain ⟨conjunctions, terms⟩ := g
  obtain rfl : terms = [] := hterms
  cases he with
  | or => rfl
  | equal field literal =>
    exact allConjunctions_addTerm (.equal field literal) (by simp) conjunctions
  | and hlength hnormal hne =>
    exact allConjunctions_addTerm (.and hlength hnormal hne) (by simp) conjunctions

/-- Disjuncts make one expression, which has just these. -/
theorem disjuncts_collapse {es : List Expr} (hne : es ≠ [])
    (hall : ∀ e ∈ es, e.Normal ∧ ∀ l, e ≠ .or l) :
    (collapse .or es).Normal ∧ (collapse .or es).disjuncts = es := by
  have hnormal : ∀ e ∈ es, e.Normal := fun e he => (hall e he).1
  have hnot : ∀ e ∈ es, ∀ l, e ≠ .or l := fun e he => (hall e he).2
  refine ⟨normal_collapse hne hnormal fun hlength => .or hlength hnormal hnot, ?_⟩
  match es with
  | [e] =>
    have hor : ∀ l, e ≠ .or l := hnot e (List.mem_singleton_self e)
    cases e with
    | or l => exact absurd rfl (hor l)
    | _ => rfl
  | e :: f :: rest => rfl

end Group

/-! ## Reading without a limit -/

namespace Draft

/-- What a token makes of a draft, where any number of groups may be open. -/
inductive Takes (d : Draft) : TokenKind → Draft → Prop where
  | leftParen (due_eq : d.due = .operand) :
      Takes d .leftParen ⟨(0, d.group) :: d.opened, .empty, .operand⟩
  | field {w : String} (due_eq : d.due = .operand) (free : isReserved w = false) :
      Takes d (.word w) { d with due := .equals w }
  | equals {field : String} (due_eq : d.due = .equals field) :
      Takes d .equals { d with due := .literal field }
  | literal {kind : TokenKind} {field : String} {literal : Literal}
      (due_eq : d.due = .literal field)
      (literal_eq : Literal.ofToken? kind = some literal) :
        Takes d kind (d.addOperand (.equal field literal))
  | and {w : String} (due_eq : d.due = .joiner) (joins : sameIgnoringCase w "AND" = true) :
      Takes d (.word w) { d with due := .operand }
  | or {w : String} (due_eq : d.due = .joiner) (joins : sameIgnoringCase w "OR" = true) :
      Takes d (.word w) { d with group := d.group.close, due := .operand }
  | rightParen {offset : Nat} {outer : Group} {opened : List (Nat × Group)}
      (due_eq : d.due = .joiner)
      (opened_eq : d.opened = (offset, outer) :: opened) :
      Takes d .rightParen (Draft.addOperand ⟨opened, outer, .operand⟩ d.group.expr)

/-- What tokens make of a draft, where any number of groups may be open. -/
inductive Leads : Draft → List TokenKind → Draft → Prop where
  | nil (d : Draft) : Leads d [] d
  | cons {d d₁ d' : Draft} {kind : TokenKind} {kinds : List TokenKind} :
      d.Takes kind d₁ → Leads d₁ kinds d' →
      Leads d (kind :: kinds) d'

variable {d d' d'' : Draft} {kind : TokenKind} {kinds kinds' : List TokenKind}

/-- A draft takes a token in one way. -/
theorem Takes.unique (h : d.Takes kind d') (h' : d.Takes kind d'') : d' = d'' := by
  -- what is due decides how a token is taken, but for the two joiners
  have hjoiners : ∀ w, sameIgnoringCase w "OR" = true → ¬sameIgnoringCase w "AND" = true :=
    fun w hw hw' => by
    rw [sameIgnoringCase_eq_false hw (t := "AND") (by decide)] at hw'
    contradiction
  cases h <;> cases h' <;> simp_all

/-- Tokens lead from a draft to one draft. -/
theorem Leads.unique (h : d.Leads kinds d') (h' : d.Leads kinds d'') : d' = d'' := by
  induction h with
  | nil =>
    cases h'
    rfl
  | cons htakes _ ih =>
    cases h' with
    | cons htakes' hleads' =>
      obtain rfl := htakes.unique htakes'
      exact ih hleads'

/-- A token that is taken leads there. -/
theorem leads_singleton (h : d.Takes kind d') : d.Leads [kind] d' := .cons h (.nil d')

/-- Tokens lead from draft to draft in two parts. -/
theorem leads_append : d.Leads (kinds ++ kinds') d'' ↔
    ∃ d', d.Leads kinds d' ∧ d'.Leads kinds' d'' := by
  constructor
  · intro h
    induction kinds generalizing d with
    | nil => exact ⟨d, .nil d, h⟩
    | cons kind kinds ih =>
      cases h with
      | cons htakes hleads =>
        obtain ⟨d', hfirst, hlast⟩ := ih hleads
        exact ⟨d', .cons htakes hfirst, hlast⟩
  · rintro ⟨d', hfirst, hlast⟩
    induction hfirst with
    | nil => exact hlast
    | cons htakes _ ih => exact .cons htakes (ih hlast)

/-- What is read with the limit is read without it. -/
theorem exists_takes_of_accepts {t : Token} {free : Draft} (h : d.Accepts t d')
    (hfree : d.Inside [] free) :
    ∃ free', free.Takes t.kind free' ∧ d'.Inside [] free' := by
  obtain ⟨⟨inner, hfront, hinner⟩, hgroup, hdue⟩ := hfree
  have hopened : free.opened = inner := hfront.trans (List.append_nil inner)
  cases h with
  | leftParen hd hk =>
    have htakes := Takes.leftParen (hdue.trans hd)
    rw [hk]
    refine ⟨_, htakes, ⟨(0, free.group) :: inner, ?_, ?_⟩, rfl, rfl⟩
    · rw [hopened, List.append_nil]
    · rw [List.map_cons, List.map_cons, hinner, hgroup]
  | field hd hk hfree =>
    have htakes := Takes.field (hdue.trans hd) hfree
    rw [hk]
    exact ⟨_, htakes, ⟨inner, hfront, hinner⟩, hgroup, rfl⟩
  | equals hd hk =>
    have htakes := Takes.equals (hdue.trans hd)
    rw [hk]
    exact ⟨_, htakes, ⟨inner, hfront, hinner⟩, hgroup, rfl⟩
  | literal hd hliteral =>
    have htakes := Takes.literal (hdue.trans hd) hliteral
    refine ⟨_, htakes, ⟨inner, hfront, hinner⟩, ?_, rfl⟩
    simp [addOperand, hgroup]
  | and hd hk hw =>
    have htakes := Takes.and (hdue.trans hd) hw
    rw [hk]
    exact ⟨_, htakes, ⟨inner, hfront, hinner⟩, hgroup, rfl⟩
  | or hd hk hw =>
    have htakes := Takes.or (hdue.trans hd) hw
    rw [hk]
    refine ⟨_, htakes, ⟨inner, hfront, hinner⟩, ?_, rfl⟩
    rw [hgroup]
  | rightParen hd hk hd' =>
    rw [hd', List.map_cons] at hinner
    obtain ⟨⟨offset, g⟩, inner, rfl, hentry, hrest⟩ := List.map_eq_cons_iff.1 hinner
    cases hentry
    have htakes := Takes.rightParen (hdue.trans hd) hopened
    rw [hk]
    refine ⟨_, htakes, ⟨inner, (List.append_nil inner).symm, hrest⟩, ?_, rfl⟩
    simp [addOperand, hgroup]

/-- What a draft reads with a limit it reads without. -/
theorem exists_leads_of_run {ts : List Token} {free : Draft} (h : d.run ts = .ok d')
    (hfree : d.Inside [] free) :
    ∃ free', free.Leads (ts.map Token.kind) free' ∧ d'.Inside [] free' := by
  induction ts generalizing d free with
  | nil =>
    cases h
    exact ⟨free, .nil free, hfree⟩
  | cons t ts ih =>
    obtain ⟨d₁, hstep, h⟩ := exists_step_of_run h
    obtain ⟨free₁, htakes, hfree₁⟩ := exists_takes_of_accepts (step_eq_ok_iff.1 hstep) hfree
    obtain ⟨free', hleads, hfree'⟩ := ih h hfree₁
    exact ⟨free', .cons htakes hleads, hfree'⟩

/-! ### Parts of a predicate -/

/-- Numbers are read as literals only. -/
theorem legible_of_leads (h : d.Leads kinds d') : Legible kinds := by
  induction h with
  | nil => exact fun n hn => by contradiction
  | @cons d d₁ d' kind kinds htakes _ ih =>
    intro n hn
    obtain rfl | hn := List.mem_cons.1 hn
    · cases htakes with
      | literal hdue hliteral =>
        have hnumber := denotes_of_ofToken? hliteral
        cases hnumber
        exact hliteral
    · exact ih n hn

/-- Whether tokens add the same expression wherever an operand is due. -/
def AddsOperand (kinds : List TokenKind) (e : Expr) : Prop :=
  ∀ d : Draft, d.due = .operand → d.Leads kinds (d.addOperand e)

/-- Whether tokens add the same disjuncts wherever a conjunction is due. -/
def AddsDisjuncts (kinds : List TokenKind) (es : List Expr) : Prop :=
  ∀ d : Draft, d.due = .operand → d.group.terms = [] →
    ∃ g, d.Leads kinds ⟨d.opened, g, .joiner⟩ ∧
      g.allConjunctions = es.reverse ++ d.group.conjunctions

/-- What is read between parentheses is added as one operand. -/
theorem leads_group {g : Group} {e : Expr} (hdue : d.due = .operand)
    (hread : Leads ⟨(0, d.group) :: d.opened, .empty, .operand⟩ kinds ⟨(0, d.group) :: d.opened,
      g, .joiner⟩)
    (hexpr : g.expr = e) : d.Leads (.leftParen :: (kinds ++ [.rightParen])) (d.addOperand e) := by
  have hclose : Takes ⟨(0, d.group) :: d.opened, g, .joiner⟩ .rightParen (d.addOperand e) :=
    hexpr ▸ .rightParen rfl rfl
  have hinside : Leads ⟨(0, d.group) :: d.opened, .empty, .operand⟩ (kinds ++ [.rightParen])
      (d.addOperand e) := leads_append.2 ⟨_, hread, leads_singleton hclose⟩
  exact .cons (.leftParen hdue) hinside

/-- An operand between parentheses is the operand. -/
theorem AddsOperand.group {e : Expr} (h : AddsOperand kinds e) (he : e.Normal) :
    AddsOperand (.leftParen :: (kinds ++ [.rightParen])) e :=
  fun _ hdue => leads_group hdue (h _ rfl) (Group.expr_addTerm_of_normal he)

/-- Disjuncts between parentheses are one operand. -/
theorem AddsDisjuncts.group {es : List Expr} (h : AddsDisjuncts kinds es) :
    AddsOperand (.leftParen :: (kinds ++ [.rightParen])) (Group.collapse .or es) := fun d hdue => by
  obtain ⟨g, hleads, hg⟩ := h ⟨(0, d.group) :: d.opened, .empty, .operand⟩ rfl rfl
  refine leads_group hdue hleads ?_
  rw [Group.expr, hg]
  simp [Group.empty]

mutual

/-- Wherever an operand is due, its tokens add the same expression. -/
theorem leads_of_operand {depth : Nat} {kinds : List TokenKind} {m : Meaning}
    (h : Operand depth kinds m) (hlegible : Legible kinds) :
    ∃ e : Expr, e.Normal ∧ AddsOperand kinds e := by
  match h with
  | @Operand.comparison _ field kind literal hfree hliteral =>
    have htoken := ofToken?_of_denotes hliteral (hlegible.of_subset (by simp))
    refine ⟨.equal field literal, .equal field literal, fun d hdue => ?_⟩
    have hlast : Leads { d with due := .literal field } [kind]
        (d.addOperand (.equal field literal)) := leads_singleton (.literal rfl htoken)
    have hsign : Leads { d with due := .equals field } [.equals, kind]
        (d.addOperand (.equal field literal)) := .cons (.equals rfl) hlast
    exact .cons (.field hdue hfree) hsign
  | @Operand.group depth kinds m hdisjunction =>
    obtain ⟨es, hne, hall, hread⟩ :=
      leads_of_disjunction hdisjunction (hlegible.of_subset (by simp))
    obtain ⟨hnormal, -⟩ := Group.disjuncts_collapse hne hall
    exact ⟨Group.collapse .or es, hnormal, hread.group⟩

/-- So do those of a conjunction: it is taken over as one operand. -/
theorem leads_of_conjunction {depth : Nat} {kinds : List TokenKind} {m : Meaning}
    (h : Conjunction depth kinds m) (hlegible : Legible kinds) :
    ∃ e : Expr, e.Normal ∧ AddsOperand kinds e := by
  match h with
  | .single hoperand => exact leads_of_operand hoperand hlegible
  | .and hconjunction hw hoperand =>
    obtain ⟨e, he, hread⟩ := leads_of_conjunction hconjunction (hlegible.of_subset (by simp))
    obtain ⟨f, hf, hread'⟩ := leads_of_operand hoperand (hlegible.of_subset (by simp))
    refine ⟨.and (e.factors ++ f.factors), he.and_factors hf, fun d hdue => ?_⟩
    have hlast := hread' { d.addOperand e with due := .operand } rfl
    rw [addOperand, addOperand, Group.addTerm_addTerm] at hlast
    exact leads_append.2 ⟨_, hread d hdue, .cons (.and rfl hw) hlast⟩

/-- Where a conjunction is due, the tokens of a disjunction add the same disjuncts. -/
theorem leads_of_disjunction {depth : Nat} {kinds : List TokenKind} {m : Meaning}
    (h : Disjunction depth kinds m) (hlegible : Legible kinds) :
    ∃ es : List Expr, es ≠ [] ∧ (∀ e ∈ es, e.Normal ∧ ∀ l, e ≠ .or l) ∧ AddsDisjuncts kinds es := by
  match h with
  | .single hconjunction =>
    obtain ⟨e, he, hread⟩ := leads_of_conjunction hconjunction hlegible
    obtain ⟨hne, hall⟩ := he.disjuncts
    refine ⟨e.disjuncts, hne, hall, fun d hdue hterms => ?_⟩
    exact ⟨_, hread d hdue, Group.allConjunctions_addTerm_of_normal he hterms⟩
  | .or hdisjunction hw hconjunction =>
    obtain ⟨es, hne, hall, hread⟩ :=
      leads_of_disjunction hdisjunction (hlegible.of_subset (by simp))
    obtain ⟨e, he, hread'⟩ := leads_of_conjunction hconjunction (hlegible.of_subset (by simp))
    refine ⟨es ++ e.disjuncts, by simp [hne], fun f hf => ?_, fun d hdue hterms => ?_⟩
    · obtain hf | hf := List.mem_append.1 hf
      · exact hall f hf
      · exact he.disjuncts.2 f hf
    · obtain ⟨g, hleads, hg⟩ := hread d hdue hterms
      have hlast := hread' ⟨d.opened, g.close, .operand⟩ rfl
      have hboth := leads_append.2 ⟨_, hleads, .cons (.or rfl hw) hlast⟩
      refine ⟨_, hboth, ?_⟩
      rw [Group.allConjunctions_addTerm_of_normal he rfl, Group.close, hg]
      simp

end

/-! ### Where a part stands -/

/-- Whether tokens begin with a parenthesis or with the name and the sign of a comparison. -/
inductive Starts : List TokenKind → Prop where
  | leftParen (rest : List TokenKind) : Starts (.leftParen :: rest)
  | comparison (field : String) (rest : List TokenKind) : Starts (.word field :: .equals :: rest)

/-- What starts an operand does so with more behind it. -/
theorem Starts.append (h : Starts kinds) (more : List TokenKind) : Starts (kinds ++ more) := by
  cases h with
  | leftParen rest => exact .leftParen _
  | comparison field rest => exact .comparison field _

mutual

/-- A disjunction starts with an operand. -/
theorem starts_of_disjunction {depth : Nat} {kinds : List TokenKind} {m : Meaning}
    (h : Disjunction depth kinds m) :
    Starts kinds :=
  match h with
  | .single hconjunction => starts_of_conjunction hconjunction
  | .or hdisjunction _ _ => (starts_of_disjunction hdisjunction).append _

/-- A conjunction starts with an operand. -/
theorem starts_of_conjunction {depth : Nat} {kinds : List TokenKind} {m : Meaning}
    (h : Conjunction depth kinds m) :
    Starts kinds :=
  match h with
  | .single hoperand => starts_of_operand hoperand
  | .and hconjunction _ _ => (starts_of_conjunction hconjunction).append _

/-- An operand starts with itself. -/
theorem starts_of_operand {depth : Nat} {kinds : List TokenKind} {m : Meaning}
    (h : Operand depth kinds m) :
    Starts kinds :=
  match h with
  | .comparison _ _ => .comparison _ _
  | .group _ => .leftParen _

end

/-- A part of a predicate is read only where an operand is due. -/
theorem due_of_leads (hstarts : Starts kinds) (h : d.Leads kinds d') : d.due = .operand := by
  cases hstarts with
  | leftParen rest =>
    cases h with
    | cons htakes _ =>
      cases htakes with
      | leftParen hdue => exact hdue
      | literal _ hliteral => contradiction
  | comparison field rest =>
    cases h with
    | cons htakes hrest =>
      cases hrest with
      | cons htakes' _ =>
        cases htakes with
        | field hdue => exact hdue
        | literal | and | or => cases htakes' <;> simp_all [addOperand, Literal.ofToken?]

/-- Where an operand is due and no `AND` stands in front of it, a conjunction begins. -/
theorem terms_eq_nil_of_leads (h : empty.Leads kinds d) (hdue : d.due = .operand)
    (hlast : ∀ w, kinds.getLast? = some (.word w) → sameIgnoringCase w "AND" = false) :
    d.group.terms = [] := by
  obtain rfl | ⟨front, kind, rfl⟩ := List.eq_nil_or_concat kinds
  · cases h
    rfl
  · rw [List.concat_eq_append] at h hlast
    obtain ⟨d₁, -, hkind⟩ := leads_append.1 h
    cases hkind with
    | cons htakes hnil =>
      cases hnil
      cases htakes with
      | leftParen | or => rfl
      | and _ hw =>
        rw [hlast _ List.getLast?_concat] at hw
        contradiction
      | field | equals | literal | rightParen => contradiction

/-- Groups with the same disjuncts are the same for everything but an `AND`. -/
theorem leads_of_allConjunctions {opened : List (Nat × Group)} {g g' last : Group}
    (hg : g.allConjunctions = g'.allConjunctions)
    (hfirst : ∀ w, kinds.head? = some (.word w) → sameIgnoringCase w "AND" = false)
    (h : Leads ⟨opened, g, .joiner⟩ kinds ⟨[], last, .joiner⟩) :
    ∃ last', Leads ⟨opened, g', .joiner⟩ kinds ⟨[], last', .joiner⟩ ∧ last'.expr = last.expr := by
  have hexpr : g.expr = g'.expr := by rw [Group.expr, Group.expr, hg]
  have hclose : g.close = g'.close := by rw [Group.close, Group.close, hg]
  cases h with
  | nil => exact ⟨g', .nil _, hexpr.symm⟩
  | cons htakes hrest =>
    -- whatever else can follow closes the conjunction first
    refine ⟨last, ?_, rfl⟩
    cases htakes with
    | and _ hw =>
      rw [hfirst _ rfl] at hw
      contradiction
    | or hdue hw =>
      have hrest' : Leads ⟨opened, g'.close, .operand⟩ _ _ := hclose ▸ hrest
      exact .cons (.or rfl hw) hrest'
    | @rightParen offset outer opened hdue hopened =>
      have hrest' : Leads (addOperand ⟨opened, outer, .operand⟩ g'.expr) _ _ := hexpr ▸ hrest
      exact .cons (.rightParen rfl hopened) hrest'
    | leftParen | field | equals | literal => contradiction

/-- Parentheses around a conjunction make no difference. -/
theorem leads_parentheses_iff {depth : Nat} {m : Meaning} (h : Conjunction depth kinds m) :
    d.Leads (.leftParen :: (kinds ++ [.rightParen])) d' ↔ d.Leads kinds d' := by
  constructor
  · intro hleads
    have hlegible : Legible kinds := (legible_of_leads hleads).of_subset (by simp)
    obtain ⟨e, he, hadds⟩ := leads_of_conjunction h hlegible
    have hdue : d.due = .operand := due_of_leads (.leftParen _) hleads
    have hd' : d' = d.addOperand e := hleads.unique (hadds.group he d hdue)
    rw [hd']
    exact hadds d hdue
  · intro hleads
    obtain ⟨e, he, hadds⟩ := leads_of_conjunction h (legible_of_leads hleads)
    have hdue : d.due = .operand := due_of_leads (starts_of_conjunction h) hleads
    have hd' : d' = d.addOperand e := hleads.unique (hadds d hdue)
    rw [hd']
    exact hadds.group he d hdue

/-- Whether tokens add the same disjuncts as others wherever a conjunction is due and they can be
read. -/
def Replaces (kinds kinds' : List TokenKind) : Prop :=
  ∀ d d' : Draft, d.group.terms = [] → d.Leads kinds' d' →
    ∃ g g' : Group, d.Leads kinds ⟨d.opened, g, .joiner⟩ ∧
    d' = ⟨d.opened, g', .joiner⟩ ∧ g'.allConjunctions = g.allConjunctions

/-- Parentheses around a disjunction make no difference where a conjunction is due. -/
theorem replaces_parentheses {depth : Nat} {m : Meaning} (h : Disjunction depth kinds m) :
    Replaces (.leftParen :: (kinds ++ [.rightParen])) kinds ∧
      Replaces kinds (.leftParen :: (kinds ++ [.rightParen])) := by
  have hboth : ∀ d : Draft, Legible kinds → d.due = .operand → d.group.terms = [] →
      ∃ g g' : Group, d.Leads (.leftParen :: (kinds ++ [.rightParen])) ⟨d.opened, g, .joiner⟩ ∧
        d.Leads kinds ⟨d.opened, g', .joiner⟩ ∧ g'.allConjunctions = g.allConjunctions :=
    fun d hlegible hdue hterms => by
      obtain ⟨es, hne, hall, hadds⟩ := leads_of_disjunction h hlegible
      obtain ⟨hnormal, hdisjuncts⟩ := Group.disjuncts_collapse hne hall
      obtain ⟨g', hleads, hg'⟩ := hadds d hdue hterms
      refine ⟨_, g', hadds.group d hdue, hleads, ?_⟩
      rw [Group.allConjunctions_addTerm_of_normal hnormal hterms, hdisjuncts, hg']
  constructor
  · intro d d' hterms hread
    have hdue : d.due = .operand := due_of_leads (starts_of_disjunction h) hread
    obtain ⟨g, g', hwith, hwithout, hg⟩ := hboth d (legible_of_leads hread) hdue hterms
    exact ⟨g, g', hwith, hread.unique hwithout, hg⟩
  · intro d d' hterms hread
    have hdue : d.due = .operand := due_of_leads (.leftParen _) hread
    have hlegible : Legible kinds := (legible_of_leads hread).of_subset (by simp)
    obtain ⟨g, g', hwith, hwithout, hg⟩ := hboth d hlegible hdue hterms
    exact ⟨g', g, hwithout, hread.unique hwith, hg.symm⟩

end Draft

/-! ## Dropping parentheses -/

/-- Dropping a pair of parentheses that makes no difference. -/
inductive Drops : List TokenKind → List TokenKind → Prop where
  /-- Around a comparison or a conjunction, whatever stands next to it. -/
  | conjunction (us : List TokenKind) {inner : List TokenKind} (vs : List TokenKind) {depth : Nat}
      {m : Meaning} :
      Conjunction depth inner m → Drops (us ++ (.leftParen :: (inner ++ [.rightParen])) ++ vs)
        (us ++ inner ++ vs)
  /-- Around a disjunction with no `AND` next to it: a whole expression, or an operand of an
  `OR`. -/
  | disjunction (us : List TokenKind) {inner : List TokenKind} (vs : List TokenKind) {depth : Nat}
      {m : Meaning} :
      Disjunction depth inner m →
      (∀ w, us.getLast? = some (.word w) → sameIgnoringCase w "AND" = false) →
      (∀ w, vs.head? = some (.word w) → sameIgnoringCase w "AND" = false) →
      Drops (us ++ (.leftParen :: (inner ++ [.rightParen])) ++ vs) (us ++ inner ++ vs)

namespace Expr

/-- Whether tokens write an expression, if any number of groups may be open. -/
def WrittenBy (e : Expr) (kinds : List TokenKind) : Prop :=
  ∃ g, Draft.empty.Leads kinds ⟨[], g, .joiner⟩ ∧ g.expr = e

variable {e : Expr} {kinds kinds' : List TokenKind}

/-- Tokens write one expression. -/
theorem WrittenBy.unique {f : Expr} (h : e.WrittenBy kinds) (h' : f.WrittenBy kinds) : e = f := by
  obtain ⟨g, hleads, rfl⟩ := h
  obtain ⟨g', hleads', rfl⟩ := h'
  cases hleads.unique hleads'
  rfl

/-- What is read from tokens is written by them. -/
theorem writtenBy_of_ofTokens {ts : List Token} {length : Nat} (hne : ts ≠ [])
    (h : ofTokens ts length = .ok e) :
    e.WrittenBy (ts.map Token.kind) := by
  obtain ⟨g, hrun, rfl⟩ := exists_run_of_ofTokens hne h
  have hempty : Draft.empty.Inside [] .empty := ⟨⟨[], rfl, rfl⟩, rfl, rfl⟩
  obtain ⟨⟨opened, group, due⟩, hleads, ⟨inner, hopened, hinner⟩, hgroup, hdue⟩ :=
    Draft.exists_leads_of_run hrun hempty
  obtain rfl := List.map_eq_nil_iff.1 hinner
  cases hopened
  cases hgroup
  cases hdue
  exact ⟨g, hleads, rfl⟩

/-- Tokens with no `AND` next to them may be replaced by others that add the same disjuncts. -/
theorem WrittenBy.replace {us inner inner' vs : List TokenKind}
    (h : e.WrittenBy (us ++ inner ++ vs)) (hstarts : Draft.Starts inner)
    (hreplaces : Draft.Replaces inner' inner)
    (hlast : ∀ w, us.getLast? = some (.word w) → sameIgnoringCase w "AND" = false)
    (hfirst : ∀ w, vs.head? = some (.word w) → sameIgnoringCase w "AND" = false) :
    e.WrittenBy (us ++ inner' ++ vs) := by
  obtain ⟨last, hleads, rfl⟩ := h
  obtain ⟨d₁, hleads, hbehind⟩ := Draft.leads_append.1 hleads
  obtain ⟨d, hfront, hinner⟩ := Draft.leads_append.1 hleads
  have hdue : d.due = .operand := Draft.due_of_leads hstarts hinner
  have hterms : d.group.terms = [] := Draft.terms_eq_nil_of_leads hfront hdue hlast
  obtain ⟨g, g', hinner', rfl, hg⟩ := hreplaces d d₁ hterms hinner
  obtain ⟨last', hrest, hexpr⟩ := Draft.leads_of_allConjunctions hg hfirst hbehind
  have hbefore := Draft.leads_append.2 ⟨d, hfront, hinner'⟩
  exact ⟨last', Draft.leads_append.2 ⟨_, hbefore, hrest⟩, hexpr⟩

/-- Dropping parentheses that make no difference changes nothing, and neither does adding them. -/
theorem writtenBy_iff_of_drops (h : Drops kinds kinds') :
    e.WrittenBy kinds ↔ e.WrittenBy kinds' := by
  cases h with
  | conjunction us vs hconjunction =>
    simp only [WrittenBy, Draft.leads_append, Draft.leads_parentheses_iff hconjunction]
  | disjunction us vs hdisjunction hlast hfirst =>
    obtain ⟨hwith, hwithout⟩ := Draft.replaces_parentheses hdisjunction
    constructor
    · exact fun hwritten => hwritten.replace (.leftParen _) hwithout hlast hfirst
    · exact fun hwritten => hwritten.replace (Draft.starts_of_disjunction hdisjunction) hwith
        hlast hfirst

end Expr

/-- Tokens that lose a pair of parentheses are not empty, before and after. -/
theorem Drops.ne_nil {kinds kinds' : List TokenKind} (h : Drops kinds kinds') :
    kinds ≠ [] ∧ kinds' ≠ [] := by
  cases h with
  | conjunction us vs hconjunction => cases Draft.starts_of_conjunction hconjunction <;> simp
  | disjunction us vs hdisjunction => cases Draft.starts_of_disjunction hdisjunction <;> simp

namespace Expr

variable {kinds kinds' : List TokenKind}

/-- Tokens that differ by parentheses that make no difference write the same expression, if they
write any. -/
theorem writtenBy_iff_of_eqvGen (h : Relation.EqvGen Drops kinds kinds') (e : Expr) :
    (e.WrittenBy kinds ↔ e.WrittenBy kinds') ∧ (kinds = [] ↔ kinds' = []) := by
  induction h with
  | rel _ _ hdrops =>
    obtain ⟨hne, hne'⟩ := hdrops.ne_nil
    exact ⟨writtenBy_iff_of_drops hdrops, iff_of_false hne hne'⟩
  | refl _ => exact ⟨Iff.rfl, Iff.rfl⟩
  | symm _ _ _ ih => exact ⟨ih.1.symm, ih.2.symm⟩
  | trans _ _ _ _ _ ih ih' => exact ⟨ih.1.trans ih'.1, ih.2.trans ih'.2⟩

end Expr

/-! ## Predicates -/

/-- Words and numbers stand in the text as they are. -/
theorem standsAt_of_tokenize {text : String} {ts : List Token} (h : tokenize text = .ok ts) :
    ∀ t ∈ ts, ∀ w, t.kind = .word w ∨ t.kind = .number w → StandsAt text w t.offset := by
  intro t ht w hw
  obtain ⟨us, hus, htiled⟩ := tiled_of_tokensFrom h
  obtain rfl : ts = us := by simpa using hus
  obtain ⟨front, slice, behind, happend, hoffset, hspells, -⟩ := htiled.exists_slice t ht
  refine ⟨String.ofList front, String.ofList behind, ?_, ?_⟩
  · rw [eq_of_spells hspells hw]
    exact eq_append_of_toList happend
  · rw [utf8ByteSize_ofList, hoffset, Nat.zero_add]

namespace Criteria

/-- What a text without tokens is compiled into is always true. What any other text is compiled into
is in normal form, with the comparisons that the text writes, in the same order, and no other
literals than a text can write; words and numbers keep their spelling. Whatever else is compiled and
differs only by parentheses that make no difference is compiled into the same expression and the
same canonical text. -/
theorem compile_grouped {text : String} {P : Predicate} (h : (expression text).compile = .ok P) :
    ∃ ts, tokenize text = .ok ts ∧ (P.expr = .all ↔ ts = []) ∧ (ts ≠ [] → P.expr.Normal) ∧
      List.Forall₂ Compares (writtenComparisons ts) P.expr.comparisons ∧
      (∀ c ∈ P.expr.comparisons, (∃ b, c.2 = .bool b) ∨ (∃ n, c.2 = .number n) ∨
        ∃ s, c.2 = .text s) ∧
      (∀ t ∈ ts, ∀ w, t.kind = .word w ∨ t.kind = .number w → StandsAt text w t.offset) ∧
      ∀ text' ts' P', tokenize text' = .ok ts' → (expression text').compile = .ok P' →
        Relation.EqvGen Drops (ts.map Token.kind) (ts'.map Token.kind) → P' = P := by
  obtain ⟨ts, e, htext, hread, rfl⟩ := exists_ofTokens_of_compile h
  have hcomparisons := Expr.comparisons_of_ofTokens hread
  have hnormal : ts ≠ [] → e.Normal := fun hne => Expr.normal_of_ofTokens hne hread
  have hall : e = .all ↔ ts = [] := by
    constructor
    · rintro rfl
      by_contra hne
      cases hnormal hne
    · intro hnil
      rw [hnil, Expr.ofTokens, if_pos rfl] at hread
      exact (Except.ok.inj hread).symm
  refine ⟨ts, htext, hall, hnormal, hcomparisons, fun c hc => ?_, standsAt_of_tokenize htext, ?_⟩
  · obtain ⟨p, -, hp⟩ := exists_compares_of_mem hcomparisons hc
    have hliteral := hp.literal
    generalize p.2.kind = kind, c.2 = literal at hliteral ⊢
    cases hliteral with
    | quoted s => exact .inr (.inr ⟨s, rfl⟩)
    | number n => exact .inr (.inl ⟨n, rfl⟩)
    | @bool w b _ => exact .inl ⟨b, rfl⟩
    | @word w _ _ => exact .inr (.inr ⟨w, rfl⟩)
  · intro text' ts' P' htext' h' hdrops
    obtain ⟨us, e', hus, hread', rfl⟩ := exists_ofTokens_of_compile h'
    obtain rfl : us = ts' := Except.ok.inj (hus.symm.trans htext')
    obtain ⟨hwritten, hnil⟩ := Expr.writtenBy_iff_of_eqvGen hdrops e
    rw [List.map_eq_nil_iff, List.map_eq_nil_iff] at hnil
    by_cases hne : ts = []
    · rw [hne, Expr.ofTokens, if_pos rfl] at hread
      rw [hnil.1 hne, Expr.ofTokens, if_pos rfl, hread] at hread'
      rw [Except.ok.inj hread']
    · have hne' : us ≠ [] := fun hnil' => hne (hnil.2 hnil')
      have hsame : e.WrittenBy (us.map Token.kind) :=
        hwritten.1 (Expr.writtenBy_of_ofTokens hne hread)
      have heq : e = e' := hsame.unique (Expr.writtenBy_of_ofTokens hne' hread')
      rw [heq]

/-- Parentheses around an operand of an `OR` and around a comparison. -/
theorem compile_grouped_of_two :
    let P : Predicate := ⟨"((a=1 OR b=2 OR c=3) AND d=4)",
      .and [.or [.equal "a" (.number "1"), .equal "b" (.number "2"), .equal "c" (.number "3")],
        .equal "d" (.number "4")]⟩
    (expression "(a=1 OR (b=2 OR c=3)) AND (d=4)").compile = .ok P ∧
      (∃ ts, tokenize "(a=1 OR (b=2 OR c=3)) AND (d=4)" = .ok ts ∧ ts ≠ [] ∧ P.expr.Normal ∧
        List.Forall₂ Compares (writtenComparisons ts) P.expr.comparisons) ∧
      ∀ P', (expression "(a=1 OR b=2 OR c=3) AND d=4").compile = .ok P' → P' = P := by
  intro P
  have hcompile : (expression "(a=1 OR (b=2 OR c=3)) AND (d=4)").compile = .ok P := by
    decide +kernel
  have htext : tokenize "(a=1 OR (b=2 OR c=3)) AND (d=4)" =
      .ok [⟨.leftParen, 0⟩, ⟨.word "a", 1⟩, ⟨.equals, 2⟩, ⟨.number "1", 3⟩, ⟨.word "OR", 5⟩,
      ⟨.leftParen, 8⟩, ⟨.word "b", 9⟩, ⟨.equals, 10⟩, ⟨.number "2", 11⟩, ⟨.word "OR", 13⟩,
      ⟨.word "c", 16⟩, ⟨.equals, 17⟩, ⟨.number "3", 18⟩, ⟨.rightParen, 19⟩, ⟨.rightParen, 20⟩,
      ⟨.word "AND", 22⟩, ⟨.leftParen, 26⟩, ⟨.word "d", 27⟩, ⟨.equals, 28⟩, ⟨.number "4", 29⟩,
      ⟨.rightParen, 30⟩] := by
    decide +kernel
  have htext' : tokenize "(a=1 OR b=2 OR c=3) AND d=4" =
      .ok [⟨.leftParen, 0⟩, ⟨.word "a", 1⟩, ⟨.equals, 2⟩, ⟨.number "1", 3⟩, ⟨.word "OR", 5⟩,
      ⟨.word "b", 8⟩, ⟨.equals, 9⟩, ⟨.number "2", 10⟩, ⟨.word "OR", 12⟩, ⟨.word "c", 15⟩,
      ⟨.equals, 16⟩, ⟨.number "3", 17⟩, ⟨.rightParen, 18⟩, ⟨.word "AND", 20⟩, ⟨.word "d", 24⟩,
      ⟨.equals, 25⟩, ⟨.number "4", 26⟩] := by
    decide +kernel
  have hor : Disjunction 0 [.word "b", .equals, .number "2", .word "OR", .word "c", .equals,
      .number "3"] _ :=
    .or (.single (.single (.comparison (by decide) (.number "2")))) (w := "OR") (by decide)
      (.single (.comparison (by decide) (.number "3")))
  have hcomparison : Conjunction 0 [.word "d", .equals, .number "4"] _ :=
    .single (.comparison (by decide) (.number "4"))
  have hfirst := Drops.disjunction [.leftParen, .word "a", .equals, .number "1", .word "OR"]
    [.rightParen, .word "AND", .leftParen, .word "d", .equals, .number "4", .rightParen] hor
    (by simpa using (by decide : sameIgnoringCase "OR" "AND" = false)) (by simp)
  have hsecond := Drops.conjunction [.leftParen, .word "a", .equals, .number "1", .word "OR",
    .word "b", .equals, .number "2", .word "OR", .word "c", .equals, .number "3", .rightParen,
    .word "AND"] [] hcomparison
  obtain ⟨ts, hts, -, hnormal, hcomparisons, -, -, hsame⟩ := compile_grouped hcompile
  obtain rfl := Except.ok.inj (htext.symm.trans hts)
  refine ⟨hcompile, ⟨_, htext, by simp, hnormal (by simp), hcomparisons⟩, fun P' hP' => ?_⟩
  exact hsame _ _ P' htext' hP' (.trans _ _ _ (.rel _ _ hfirst) (.rel _ _ hsecond))

end Criteria

end ClusterMap
