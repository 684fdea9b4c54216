import ClusterMap.Proofs.Query.Cutting
import ClusterMap.Proofs.Query.Normal
import ClusterMap.Query.Predicate

/-!
# Canonical texts

The canonical text of an expression writes it back, if it is an expression that texts can write
(`Expr.Canonical`): nodes have at least two terms and none of their own operator, fields and texts
are words, and nothing nests too deep. The text is laid out as the tokens of the expression,
whatever stands behind it (`laidOut_of_canonical`), and where an operand is due these are read as
that very expression (`readBack_of_canonical`). Main statement: `ofText_render`.
-/

namespace ClusterMap

open Text

/-! ## Expressions that texts can write -/

/-- Whether a text is a single word. -/
def IsWord (text : String) : Prop := tokenize text = .ok [⟨.word text, 0⟩]

/-- Whether a text is a single number. -/
def IsNumber (text : String) : Prop := tokenize text = .ok [⟨.number text, 0⟩]

instance (text : String) : Decidable (IsWord text) := inferInstanceAs (Decidable (_ = _))

instance (text : String) : Decidable (IsNumber text) := inferInstanceAs (Decidable (_ = _))

/-- A literal that its own text stands for. -/
inductive Literal.Plain : Literal → Prop where
  | bool (b : Bool) : Plain (.bool b)
  | number {n : String} : IsNumber n → Plain (.number n)
  | text {w : String} :
      IsWord w → isReserved w = false → (∀ b, sameIgnoringCase w (boolText b) = false) →
      Plain (.text w)

/-- An expression that its canonical text writes, with nodes that nest no deeper than `depth`. -/
inductive Expr.Canonical : (depth : Nat) → Expr → Prop where
  | equal {depth : Nat} {field : String} {literal : Literal} :
      IsWord field → isReserved field = false →
      literal.Plain → Canonical depth (.equal field literal)
  | and {depth : Nat} {terms : List Expr} : 2 ≤ terms.length → (∀ e ∈ terms, Canonical depth e) →
      (∀ e ∈ terms, ∀ l, e ≠ .and l) → Canonical (depth + 1) (.and terms)
  | or {depth : Nat} {terms : List Expr} : 2 ≤ terms.length → (∀ e ∈ terms, Canonical depth e) →
      (∀ e ∈ terms, ∀ l, e ≠ .or l) → Canonical (depth + 1) (.or terms)

/-- A canonical expression is normal. -/
theorem Expr.Canonical.normal {depth : Nat} {e : Expr} (h : e.Canonical depth) : e.Normal := by
  induction h with
  | equal => exact .equal _ _
  | and hlength _ hand ih => exact .and hlength ih hand
  | or hlength _ hor ih => exact .or hlength ih hor

/-- A group of one operand is that operand. -/
theorem Group.expr_addTerm_empty {depth : Nat} {e : Expr} (he : e.Canonical depth) :
    (addTerm .empty e).expr = e :=
  expr_addTerm_of_normal he.normal

/-- A letter and letters or digits behind it spell a word. -/
theorem spells_ofList {c : Char} {cs : List Char} (hc : isWordStart c = true)
    (hcs : cs.all isWordPart = true) :
    Spells (String.ofList (c :: cs)).toList (.word (String.ofList (c :: cs))) := by
  rw [String.toList_ofList]
  exact .word hc hcs

/-- A word spells itself. -/
theorem spells_of_isWord {w : String} (h : IsWord w) : Spells w.toList (.word w) := by
  obtain ⟨source, hsource⟩ := exists_spells_of_tokenize h _ (List.mem_singleton_self _)
  cases hsource with
  | word hc hcs => exact spells_ofList hc hcs

/-- A numeral spells itself. -/
theorem spells_of_isNumber {n : String} (h : IsNumber n) : Spells n.toList (.number n) := by
  obtain ⟨source, hsource⟩ := exists_spells_of_tokenize h _ (List.mem_singleton_self _)
  cases hsource with
  | number hc htail hne =>
    rw [String.toList_ofList]
    exact .number hc htail hne

namespace Literal

/-- The token of the text of a literal. -/
def token : Literal → TokenKind
  | number n => .number n
  | l => .word l.render

/-- A plain literal is spelled by its canonical text. -/
theorem Plain.spells {l : Literal} (h : l.Plain) : Spells l.render.toList l.token := by
  cases h with
  | bool b =>
    cases b with
    | true => exact spells_ofList (c := 't') rfl rfl
    | false => exact spells_ofList (c := 'f') rfl rfl
  | number hn => exact spells_of_isNumber hn
  | text hw _ _ => exact spells_of_isWord hw

/-- A plain literal is what its token stands for. -/
theorem Plain.ofToken? {l : Literal} (h : l.Plain) : Literal.ofToken? l.token = some l := by
  cases h with
  | bool b => cases b <;> decide
  | number hn => exact ofToken?_of_tokenize hn (List.mem_singleton_self _)
  | text _ hreserved hbool =>
    exact Draft.ofToken?_of_denotes (.word hreserved hbool) fun n hn => by simp [token] at hn

end Literal

namespace Expr

mutual

/-- The tokens of the canonical text. -/
def tokens : Expr → List TokenKind
  | all => []
  | equal field literal => [.word field, .equals, literal.token]
  | and terms =>
    .leftParen :: [TokenKind.word "AND"].intercalate (termTokens terms) ++ [.rightParen]
  | or terms => .leftParen :: [TokenKind.word "OR"].intercalate (termTokens terms) ++ [.rightParen]
termination_by structural e => e

/-- The tokens of a list of terms. -/
def termTokens : List Expr → List (List TokenKind)
  | [] => []
  | e :: rest => tokens e :: termTokens rest
termination_by structural l => l

end

/-- The tokens of terms are those of each term. -/
theorem termTokens_eq_map (terms : List Expr) : termTokens terms = terms.map tokens := by
  induction terms with
  | nil => rfl
  | cons e rest ih => rw [termTokens, ih, List.map_cons]

@[simp] theorem tokens_and (terms : List Expr) :
    tokens (and terms) = .leftParen :: [TokenKind.word "AND"].intercalate (terms.map tokens) ++
      [.rightParen] := by
  rw [tokens, termTokens_eq_map]

@[simp] theorem tokens_or (terms : List Expr) :
    tokens (or terms) = .leftParen :: [TokenKind.word "OR"].intercalate (terms.map tokens) ++
      [.rightParen] := by
  rw [tokens, termTokens_eq_map]

/-! ## The layout of the text -/

/-- Whether a text ends, or goes on as it may behind an operand. -/
def Behind (rest : List Char) : Prop := ∀ c ∈ rest.head?, c = ' ' ∨ c = ')'

/-- Whether the canonical text of an expression is laid out as its tokens, whatever stands behind
it. -/
def LaidOut (e : Expr) : Prop :=
  ∀ (rest : List Char) (kinds : List TokenKind), Behind rest → Cut rest kinds →
    Cut (e.render.toList ++ rest) (e.tokens ++ kinds)

/-- Whether a text is laid out as some tokens, whatever stands behind it. -/
def LaidOutAs (text : String) (kinds : List TokenKind) : Prop :=
  ∀ (rest : List Char) (others : List TokenKind), Behind rest → Cut rest others →
    Cut (text.toList ++ rest) (kinds ++ others)

/-- Every token ends where nothing, a blank or a closing parenthesis follows. -/
theorem endsAt_of_behind {rest : List Char} (h : Behind rest) (kind : TokenKind) :
    ∀ d ∈ rest.head?, kind.endsAt d = true := by
  intro d hd
  obtain rfl | rfl := h d hd
  · exact endsAt_of_isBlank (by decide) _
  · cases kind <;> rfl

/-- No literal goes on with an equals sign. -/
theorem endsAt_equals_of_ofToken? {spelling : List Char} {kind : TokenKind} {literal : Literal}
    (h : Spells spelling kind) (hliteral : Literal.ofToken? kind = some literal)
    (rest : List Char) :
    ∀ d ∈ (spelling ++ rest).head?, TokenKind.equals.endsAt d = true := by
  have hstart : ∃ c cs, spelling = c :: cs ∧ c ≠ '=' := by
    cases h with
    | @word c cs hc _ =>
      refine ⟨c, cs, rfl, fun heq => ?_⟩
      have hle := le_toNat_of_isWordStart hc
      rw [heq] at hle
      contradiction
    | @number c cs hc _ _ =>
      refine ⟨c, cs, rfl, fun heq => ?_⟩
      rw [heq] at hc
      contradiction
    | @quoted quote s hquote => exact ⟨quote, _, rfl, by obtain rfl | rfl := hquote <;> decide⟩
    | _ => contradiction
  obtain ⟨c, cs, rfl, hne⟩ := hstart
  intro d hd
  cases hd
  simpa [TokenKind.endsAt] using hne

/-- A comparison is cut at its equals sign. -/
theorem laidOut_comparison {field source : String} {kind : TokenKind} {literal : Literal}
    (hfield : IsWord field) (hsource : Spells source.toList kind)
    (hliteral : Literal.ofToken? kind = some literal) :
    LaidOutAs (field ++ "=" ++ source) [.word field, .equals, kind] := by
  intro rest others hrest hcut
  have hequals : ∀ d ∈ ('=' :: (source.toList ++ rest)).head?,
      (TokenKind.word field).endsAt d = true := by
    intro d hd
    cases hd
    rfl
  have htext : (field ++ "=" ++ source).toList ++ rest =
      field.toList ++ (['='] ++ (source.toList ++ rest)) := by
    simp
  have hlast := Cut.token hsource (endsAt_of_behind hrest kind) hcut
  have hmiddle := Cut.token .equals (endsAt_equals_of_ofToken? hsource hliteral rest) hlast
  rw [htext]
  exact .token (spells_of_isWord hfield) hequals hmiddle

/-- A comparison is laid out in its canonical text. -/
theorem laidOut_equal {field : String} {literal : Literal} (hfield : IsWord field)
    (hliteral : literal.Plain) :
    LaidOut (.equal field literal) :=
  laidOut_comparison hfield hliteral.spells hliteral.ofToken?

/-- What is laid out piece by piece is laid out with a joiner between every two pieces. -/
theorem cut_intercalate {joiner word : String}
    (hjoiner : joiner.toList = ' ' :: (word.toList ++ [' ']))
    (hword : Spells word.toList (.word word)) {α : Type} {text : α → String}
    {kinds : α → List TokenKind} {pieces : List α} (hne : pieces ≠ [])
    (hpieces : ∀ a ∈ pieces, LaidOutAs (text a) (kinds a)) {rest : List Char}
    {others : List TokenKind} (hrest : Behind rest) (hcut : Cut rest others) :
    Cut ((joiner.intercalate (pieces.map text)).toList ++ rest)
      ([TokenKind.word word].intercalate (pieces.map kinds) ++ others) := by
  induction pieces with
  | nil => contradiction
  | cons a pieces ih =>
    have ha := hpieces a List.mem_cons_self
    cases pieces with
    | nil =>
      rw [List.map_singleton, List.map_singleton, String.intercalate_singleton,
        List.intercalate_singleton]
      exact ha rest others hrest hcut
    | cons b pieces =>
      have hcut' := ih (List.cons_ne_nil b pieces) fun a' ha' =>
        hpieces a' (List.mem_cons_of_mem a ha')
      have htext : (joiner.intercalate ((a :: b :: pieces).map text)).toList ++ rest =
          (text a).toList ++
          (' ' ::
            (word.toList ++
              (' ' :: ((joiner.intercalate ((b :: pieces).map text)).toList ++ rest)))) := by
        simp only [List.map_cons, String.intercalate_cons_cons, String.toList_append, hjoiner,
          List.append_assoc, List.cons_append, List.nil_append]
      have hkinds : [TokenKind.word word].intercalate ((a :: b :: pieces).map kinds) ++ others =
          kinds a ++
            (.word word :: ([TokenKind.word word].intercalate ((b :: pieces).map kinds) ++
              others)) := by
        simp only [List.map_cons, List.intercalate_cons_cons, List.append_assoc, List.cons_append,
          List.nil_append]
      have hend :
          ∀ d ∈ (' ' :: ((joiner.intercalate ((b :: pieces).map text)).toList ++ rest)).head?,
          (TokenKind.word word).endsAt d = true := by
        intro d hd
        cases hd
        rfl
      have hrest' := Cut.token hword hend (.blank (by decide) hcut')
      rw [htext, hkinds]
      refine ha _ _ (fun d hd => ?_) (.blank (by decide) hrest')
      cases hd
      exact .inl rfl

/-- The text of a node is laid out as its terms are, between parentheses. -/
theorem cut_group {joiner word : String} (hjoiner : joiner.toList = ' ' :: (word.toList ++ [' ']))
    (hword : Spells word.toList (.word word)) {terms : List Expr} (hne : terms ≠ [])
    (hterms : ∀ e ∈ terms, LaidOut e) {rest : List Char} {kinds : List TokenKind}
    (hcut : Cut rest kinds) :
    Cut ((group joiner (terms.map render)).toList ++ rest)
      (.leftParen :: [TokenKind.word word].intercalate (terms.map tokens) ++ [.rightParen] ++
        kinds) := by
  have hclose : Cut ([')'] ++ rest) (.rightParen :: kinds) :=
    .token .rightParen (fun _ _ => rfl) hcut
  have hbehind : Behind ([')'] ++ rest) := fun d hd => by
    cases hd
    exact .inr rfl
  have hinner : Cut ((joiner.intercalate (terms.map render)).toList ++ ([')'] ++ rest))
      ([TokenKind.word word].intercalate (terms.map tokens) ++ (.rightParen :: kinds)) :=
    cut_intercalate hjoiner hword hne hterms hbehind hclose
  have htext : (group joiner (terms.map render)).toList ++ rest =
      ['('] ++ ((joiner.intercalate (terms.map render)).toList ++ ([')'] ++ rest)) := by
    simp [group]
  rw [htext, List.cons_append, List.append_assoc, List.cons_append, List.singleton_append]
  exact .token .leftParen (fun _ _ => rfl) hinner

/-- The canonical text is laid out as the tokens of the expression. -/
theorem laidOut_of_canonical {depth : Nat} {e : Expr} (h : Canonical depth e) : LaidOut e := by
  have hand : Spells "AND".toList (.word "AND") := spells_ofList (c := 'A') rfl rfl
  have hor : Spells "OR".toList (.word "OR") := spells_ofList (c := 'O') rfl rfl
  induction h with
  | equal hfield _ hliteral => exact laidOut_equal hfield hliteral
  | @and depth terms hlength _ _ ih =>
    intro rest kinds _ hcut
    have hne : terms ≠ [] := List.ne_nil_of_length_pos (by omega)
    rw [render_and, tokens_and]
    exact cut_group rfl hand hne ih hcut
  | @or depth terms hlength _ _ ih =>
    intro rest kinds _ hcut
    have hne : terms ≠ [] := List.ne_nil_of_length_pos (by omega)
    rw [render_or, tokens_or]
    exact cut_group rfl hor hne ih hcut

end Expr

namespace Expr

/-! ## Reading the tokens -/

/-- Whether the tokens of an expression are read as it where an operand is due and `depth` more
parentheses may be open. -/
def ReadBack (depth : Nat) (e : Expr) : Prop :=
  ∀ (d : Draft) (ts : List Token), d.due = .operand → d.opened.length + depth ≤ maxNesting →
    ts.map Token.kind = e.tokens → d.run ts = .ok (d.addOperand e)

section Terms

variable {depth : Nat} {terms : List Expr} (hne : terms ≠ [])
    (hterms : ∀ e ∈ terms, ReadBack depth e)

include hne hterms

/-- Terms joined by `AND` are added to the conjunction one after the other. -/
theorem run_of_and (hand : ∀ e ∈ terms, ∀ l, e ≠ .and l) (d : Draft) (ts : List Token)
    (hdue : d.due = .operand) (hdepth : d.opened.length + depth ≤ maxNesting)
    (hkinds : ts.map Token.kind = [TokenKind.word "AND"].intercalate (terms.map tokens)) :
    d.run ts = .ok ⟨d.opened, ⟨d.group.conjunctions, terms.reverse ++ d.group.terms⟩, .joiner⟩ := by
  induction terms generalizing d ts with
  | nil => contradiction
  | cons e terms ih =>
    have he := hterms e List.mem_cons_self d
    have hadd :
        d.addOperand e = ⟨d.opened, ⟨d.group.conjunctions, e :: d.group.terms⟩, .joiner⟩ := by
      rw [Draft.addOperand, Group.addTerm_of_ne_and (hand e List.mem_cons_self)]
    cases terms with
    | nil =>
      rw [List.map_singleton, List.intercalate_singleton] at hkinds
      rw [he ts hdue hdepth hkinds, hadd]
      rfl
    | cons f terms =>
      simp only [List.map_cons, List.intercalate_cons_cons, List.append_assoc,
        List.singleton_append] at hkinds
      obtain ⟨ts₁, _, rfl, h₁, hkinds⟩ := List.map_eq_append_iff.1 hkinds
      obtain ⟨t, ts₂, rfl, ht, h₂⟩ := List.map_eq_cons_iff.1 hkinds
      have hstep := Draft.step_of_and (sameIgnoringCase_self "AND") ht d.opened
        ⟨d.group.conjunctions, e :: d.group.terms⟩
      have hrest :=
        ih (List.cons_ne_nil f terms) (fun e' he' => hterms e' (List.mem_cons_of_mem e he'))
        (fun e' he' => hand e' (List.mem_cons_of_mem e he'))
        ⟨d.opened, ⟨d.group.conjunctions, e :: d.group.terms⟩, .operand⟩ ts₂ rfl hdepth h₂
      rw [Draft.run_append_of_ok (he ts₁ hdue hdepth h₁), hadd, Draft.run_cons_of_ok hstep, hrest]
      simp

/-- Terms joined by `OR` are conjunctions of their own. -/
theorem run_of_or (hor : ∀ e ∈ terms, ∀ l, e ≠ .or l)
    (hcanonical : ∀ e ∈ terms, Canonical depth e) (d : Draft) (ts : List Token)
    (hdue : d.due = .operand) (hgroup : d.group.terms = [])
    (hdepth : d.opened.length + depth ≤ maxNesting)
    (hkinds : ts.map Token.kind = [TokenKind.word "OR"].intercalate (terms.map tokens)) :
    ∃ g, d.run ts = .ok ⟨d.opened, g, .joiner⟩ ∧
      g.allConjunctions = terms.reverse ++ d.group.conjunctions := by
  induction terms generalizing d ts with
  | nil => contradiction
  | cons e terms ih =>
    have he := hterms e List.mem_cons_self d
    have hsplit : d.group = ⟨d.group.conjunctions, []⟩ := by rw [← hgroup]
    have hcurrent : (d.group.addTerm e).allConjunctions = e :: d.group.conjunctions := by
      rw [hsplit]
      exact Group.allConjunctions_addTerm (hcanonical e List.mem_cons_self).normal
        (hor e List.mem_cons_self) _
    cases terms with
    | nil =>
      rw [List.map_singleton, List.intercalate_singleton] at hkinds
      exact ⟨d.group.addTerm e, he ts hdue hdepth hkinds, hcurrent⟩
    | cons f terms =>
      simp only [List.map_cons, List.intercalate_cons_cons, List.append_assoc,
        List.singleton_append] at hkinds
      obtain ⟨ts₁, _, rfl, h₁, hkinds⟩ := List.map_eq_append_iff.1 hkinds
      obtain ⟨t, ts₂, rfl, ht, h₂⟩ := List.map_eq_cons_iff.1 hkinds
      have hstep := Draft.step_of_or (sameIgnoringCase_self "OR") ht d.opened (d.group.addTerm e)
      obtain ⟨g, hrest, hall⟩ := ih (List.cons_ne_nil f terms)
        (fun e' he' => hterms e' (List.mem_cons_of_mem e he'))
        (fun e' he' => hor e' (List.mem_cons_of_mem e he'))
        (fun e' he' => hcanonical e' (List.mem_cons_of_mem e he'))
        ⟨d.opened, (d.group.addTerm e).close, .operand⟩ ts₂ rfl rfl hdepth h₂
      refine ⟨g, ?_, ?_⟩
      · rw [Draft.run_append_of_ok (he ts₁ hdue hdepth h₁), Draft.addOperand,
          Draft.run_cons_of_ok hstep, hrest]
      · rw [hall, Group.close, hcurrent]
        simp

end Terms

/-- The tokens of the canonical text are read as the expression. -/
theorem readBack_of_canonical {depth : Nat} {e : Expr} (h : Canonical depth e) :
    ReadBack depth e := by
  induction h with
  | equal _ hreserved hliteral =>
    intro d ts hdue hdepth hkinds
    exact Draft.run_of_comparison hreserved hliteral.ofToken? hkinds hdue
  | @and depth terms hlength _ hand ih =>
    intro d ts hdue hdepth hkinds
    have hne : terms ≠ [] := List.ne_nil_of_length_pos (by omega)
    have hexpr : Group.expr ⟨[], terms.reverse ++ []⟩ = .and terms := by
      have hconjunction : Group.conjunction ⟨[], terms.reverse ++ []⟩ = .and terms := by
        rw [Group.conjunction, List.append_nil, List.reverse_reverse,
          Group.collapse_of_two_le hlength]
      simp only [Group.expr, Group.allConjunctions, hconjunction]
      rfl
    rw [tokens_and] at hkinds
    obtain ⟨e, hrun, rfl⟩ :=
      Draft.run_of_group (P := (· = .and terms)) hkinds hdue (by omega) fun offset ts hts =>
      ⟨_, run_of_and hne ih hand ⟨(offset, d.group) :: d.opened, .empty, .operand⟩ ts rfl
        (by rw [List.length_cons]; omega) hts, hexpr⟩
    exact hrun
  | @or depth terms hlength hcanonical hor ih =>
    intro d ts hdue hdepth hkinds
    have hne : terms ≠ [] := List.ne_nil_of_length_pos (by omega)
    rw [tokens_or] at hkinds
    obtain ⟨e, hrun, rfl⟩ :=
      Draft.run_of_group (P := (· = .or terms)) hkinds hdue (by omega) fun offset ts hts => by
      obtain ⟨g, hrun, hall⟩ :=
        run_of_or hne ih hor hcanonical ⟨(offset, d.group) :: d.opened, .empty, .operand⟩ ts
        rfl rfl (by rw [List.length_cons]; omega) hts
      have hexpr : g.expr = .or terms := by
        have hreverse : (terms.reverse ++ Group.empty.conjunctions).reverse = terms := by
          rw [Group.empty, List.append_nil, List.reverse_reverse]
        rw [Group.expr, hall, hreverse, Group.collapse_of_two_le hlength]
      exact ⟨g, hrun, hexpr⟩
    exact hrun

/-! ## Reading canonical texts -/

/-- Every canonical expression has a token. -/
theorem tokens_ne_nil {depth : Nat} {e : Expr} (h : Canonical depth e) : e.tokens ≠ [] := by
  cases h with
  | equal => exact List.cons_ne_nil _ _
  | and => simp
  | or => simp

/-- Reading undoes writing: a text that is the canonical text of an expression that texts can write
is read as that expression, and compiling it gives the expression and the text again. -/
theorem ofText_render {e : Expr} (h : e = .all ∨ e.Canonical maxNesting) :
    ofText e.render = .ok e ∧ (Criteria.expression e.render).compile = .ok ⟨e.render, e⟩ := by
  have htext : ofText e.render = .ok e := by
    obtain rfl | h := h
    · have hcut : Cut (render .all).toList [] := .nil
      obtain ⟨ts, hts, hkinds⟩ := exists_tokenize_of_cut hcut
      rw [ofText_of_tokenize hts, List.map_eq_nil_iff.1 hkinds]
      rfl
    · have hcut := laidOut_of_canonical h [] [] (fun _ hd => by contradiction) .nil
      rw [List.append_nil, List.append_nil] at hcut
      obtain ⟨ts, hts, hkinds⟩ := exists_tokenize_of_cut hcut
      have hne : ts ≠ [] := fun hnil => tokens_ne_nil h (by rw [← hkinds, hnil, List.map_nil])
      have hrun :=
        readBack_of_canonical h .empty ts rfl (Nat.le_of_eq (Nat.zero_add maxNesting)) hkinds
      have hexpr : (Draft.empty.addOperand e).group.expr = e := Group.expr_addTerm_empty h
      rw [ofText_of_tokenize hts, ofTokens, if_neg hne, hrun]
      exact congrArg Except.ok hexpr
  have hcompile : (Criteria.expression e.render).compile = .ok ⟨e.render, e⟩ := by
    rw [Criteria.compile, Predicate.ofText, htext]
  exact ⟨htext, hcompile⟩

/-- A disjunction inside a conjunction, with a literal of each sort. -/
theorem ofText_render_of_and :
    let e := Expr.and [.equal "a.b" (.number "-1.50"),
      .or [.equal "this" (.bool true), .equal "c" (.text "x_1")]]
    (e = .all ∨ e.Canonical maxNesting) ∧
    ofText "(a.b=-1.50 AND (this=true OR c=x_1))" = .ok e := by
  intro e
  have hnumber : (equal "a.b" (.number "-1.50")).Canonical 255 :=
    .equal (by decide +kernel) (by decide) (.number (by decide +kernel))
  have hbool : (equal "this" (.bool true)).Canonical 254 :=
    .equal (by decide +kernel) (by decide) (.bool true)
  have htext : (equal "c" (.text "x_1")).Canonical 254 :=
    .equal (by decide +kernel) (by decide) (.text (by decide +kernel) (by decide) (by decide))
  have hor : (or [.equal "this" (.bool true), .equal "c" (.text "x_1")]).Canonical 255 :=
    .or (by decide) (by simp [hbool, htext]) (by simp)
  have hand : e.Canonical maxNesting := .and (by decide) (by simp [hnumber, hor]) (by simp)
  exact ⟨.inr hand, (ofText_render (.inr hand)).1⟩

end Expr

end ClusterMap
