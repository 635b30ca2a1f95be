import JaneCheck.Proofs.RoundTrip.Types

/-!
# Reading rendered expressions

One lemma for each form of expression: if the parsers of the level below read the
parts, the level reads the whole. An operand in parentheses is read by any level,
whatever operators it may take (`reads_inParens`).
-/

namespace JaneCheck

open Token

/-- The token continues an operand. -/
def Token.Kind.continuesOperand (k : Kind) : Bool :=
  [.lparen, .dot, .lbracket, .ellipsis].any k.isSymbol

theorem Token.Kind.of_continuesExpr {k : Kind} (h : k.continuesExpr = false) :
    Syntax.precedence? k = none ∧ k.continuesType = false ∧ k.continuesOperand = false ∧
      k.isSymbol .lbrace = false ∧ k.isSymbol .colonColon = false := by
  simp only [continuesExpr, continuesType, List.any_cons, List.any_nil, Bool.or_eq_false_iff] at h
  obtain ⟨⟨hprec, hbracket, harrow, -⟩, hparen, hbrace, hdot, hdots, hcolons, -⟩ := h
  refine ⟨Option.not_isSome_iff_eq_none.mp (by simp [hprec]), ?_, ?_, hbrace, hcolons⟩
  · simp [continuesType, hbracket, harrow]
  · simp [continuesOperand, hparen, hdot, hbracket, hdots]

namespace Syntax

theorem binOp_sign (op : BinOp) : binOp? op.sign = some op := by cases op <;> rfl

theorem unOp_sign (op : UnOp) : unOp? (.symbol op.sign) = some op := by cases op <;> rfl

theorem precedence_sign (op : BinOp) : ∃ p, precedence? (.symbol op.sign) = some p := by
  cases op <;> exact ⟨_, rfl⟩

theorem sign_continuesOperand (op : BinOp) :
    (Kind.symbol op.sign).continuesOperand = false := by cases op <;> rfl

namespace Parse

section Expressions

variable {g : Grammar} {e : Expr} {k k' next : Kind} {ks ks1 ks2 behind : List Kind}
  {P Q : Expr → Prop} {least n : Nat} {span : Span}

theorem reads_noSuffix (hk : k.continuesOperand = false) (he : Q e) :
    Reads (suffixRounds g e n) (k :: ks) (k :: ks) Q := by
  simp only [Kind.continuesOperand, List.any_cons, List.any_nil, Bool.or_eq_false_iff] at hk
  obtain ⟨hparen, hdot, hbracket, hdots, -⟩ := hk
  cases n with
  | zero => exact .pure he
  | succ n =>
    refine .pass hparen ?_
    refine .pass hdot ?_
    refine .pass hbracket ?_
    refine .pass hdots ?_
    exact .pure he

theorem reads_noOperator (hk : precedence? k = none) (he : Q e) :
    Reads (operatorRounds g least e n) (k :: ks) (k :: ks) Q := by
  cases n with
  | zero => exact .pure he
  | succ n =>
    refine .kind ?_
    rw [hk]
    exact .pure he

theorem Reads.round {p : Nat → Parse Expr} (h : ∀ n, Reads (p (n + 1)) (k :: ks) ks1 Q) :
    Reads (Parse.rounds >>= p) (k :: ks) ks1 Q := by
  refine .rounds fun n hn => ?_
  cases n with
  | zero => cases hn
  | succ n => exact h n

theorem reads_operandRounds (hk : unOp? k = none) (hatom : Reads (atom g) (k :: ks) (k' :: ks1) P)
    (hsuffix : ∀ e n, P e → Reads (suffixRounds g e (n + 1)) (k' :: ks1) ks2 Q) :
    Reads (operandRounds g (n + 1)) (k :: ks) ks2 Q := by
  refine .here fun _ => .kind ?_
  rw [hk]
  exact .bind hatom fun e he => .round fun n => hsuffix e n he

theorem reads_exprLevel (hoperand : Reads (operand g) ks (k :: ks1) P)
    (hops : ∀ e n, P e → Reads (operatorRounds g least e (n + 1)) (k :: ks1) ks2 Q) :
    Reads (exprLevel g least) ks ks2 Q :=
  .bind hoperand fun e he => .round fun n => hops e n he

theorem reads_lastOperand (hnext : next.continuesExpr = false)
    (h : Reads (operand g) ks (next :: behind) Q) :
    Reads (exprLevel g least) ks (next :: behind) Q :=
  reads_exprLevel h fun _ _ he => reads_noOperator (Kind.of_continuesExpr hnext).1 he

theorem reads_lastAtom (hnext : next.continuesExpr = false) (hk : unOp? k = none)
    (hatom : Reads (atom g) (k :: ks) (next :: behind) Q) :
    Reads (exprLevel g least) (k :: ks) (next :: behind) Q :=
  reads_lastOperand hnext <| .round fun _ => reads_operandRounds hk hatom fun _ _ he =>
    reads_noSuffix (Kind.of_continuesExpr hnext).2.2.1 he

theorem unOp_literal (value : Literal) : unOp? value.kind = none := by
  cases value with
  | bool b => cases b <;> rfl
  | _ => rfl

theorem reads_atom_literal (value : Literal) (hks : ks ≠ []) :
    Reads (atom g) (value.kind :: ks) ks (·.bare = .literal value default) := by
  have hliteral : Reads (literal value) (value.kind :: ks) ks (·.bare = .literal value default) :=
    .here fun _ => .advance hks <| .pure rfl
  cases value with
  | bool b => cases b <;> exact .kind hliteral
  | _ => exact .kind hliteral

theorem reads_literal (value : Literal) : ReadsExpr (exprLevel g least) (.literal value span) :=
  fun _ _ hnext => reads_lastAtom hnext (unOp_literal value) (reads_atom_literal value (by simp))

/-! ### Parentheses -/

theorem reads_atom_inParens (h : ReadsExpr (g.expr 0) e) (hks : ks ≠ []) :
    Reads (atom g) (inParens e.tokens ++ ks) ks (·.bare = e.bare) := by
  have htokens : inParens e.tokens ++ ks = .symbol .lparen ::
      (e.tokens ++ .symbol .rparen :: ks) := by
    simp [inParens]
  rw [htokens]
  refine .kind (.advance (by simp) ?_)
  exact .bind (Reads.withLiterals (h rfl)) fun a ha => .expect hks <| .pure ha

theorem reads_inParens (h : ReadsExpr (g.expr 0) e) (least : Nat) :
    ReadsUpTo (exprLevel g least) Kind.continuesExpr (inParens e.tokens) (·.bare = e.bare) :=
  fun _ _ hnext => reads_lastAtom hnext rfl (reads_atom_inParens h (by simp))

section Operand

variable (he : ReadsExpr (g.expr 0) e)

include he

theorem reads_suffixed (hnext : next.continuesExpr = false)
    (hsuffix : ∀ b n, b.bare = e.bare → Reads (suffixRounds g b (n + 1)) (k :: ks)
      (next :: behind) Q) :
    Reads (exprLevel g least) (inParens e.tokens ++ k :: ks) (next :: behind) Q :=
  reads_lastOperand hnext <| .round fun _ =>
    reads_operandRounds rfl (reads_atom_inParens he (by simp)) hsuffix

theorem reads_field {name : Ident} : ReadsExpr (exprLevel g least) (.field e name span) := by
  intro next behind hnext
  have htokens : (Expr.field e name span).tokens ++ next :: behind =
      inParens e.tokens ++ .symbol .dot :: ofName name.name :: next :: behind := by
    simp [Expr.tokens]
  rw [htokens]
  refine reads_suffixed he hnext fun b n hb => ?_
  refine .pass rfl ?_
  refine .take (by simp) ?_
  refine .bind (reads_ident _ (by simp)) fun i hi => ?_
  refine reads_noSuffix (Kind.of_continuesExpr hnext).2.2.1 ?_
  simp only [Expr.bare, Ident.bare, hb, hi]

theorem reads_index {i : Expr} (hi : ReadsExpr (g.expr 0) i) :
    ReadsExpr (exprLevel g least) (.index e i span) := by
  intro next behind hnext
  have htokens : (Expr.index e i span).tokens ++ next :: behind = inParens e.tokens ++
      .symbol .lbracket :: (i.tokens ++ .symbol .rbracket :: next :: behind) := by
    simp [Expr.tokens, inBrackets]
  rw [htokens]
  refine reads_suffixed he hnext fun b n hb => ?_
  refine .pass rfl <| .pass rfl <| .take (by simp) ?_
  refine .bind (Reads.withLiterals (hi rfl)) fun a ha => .expect (by simp) ?_
  refine .spanFrom fun _ => ?_
  refine reads_noSuffix (Kind.of_continuesExpr hnext).2.2.1 ?_
  simp only [Expr.bare, hb, ha]

theorem reads_spread : ReadsExpr (exprLevel g least) (.spread e span) := by
  intro next behind hnext
  have htokens : (Expr.spread e span).tokens ++ next :: behind =
      inParens e.tokens ++ .symbol .ellipsis :: next :: behind := by
    simp [Expr.tokens]
  rw [htokens]
  refine reads_suffixed he hnext fun b n hb => ?_
  refine .pass rfl <| .pass rfl <| .pass rfl <| .take (by simp) <| .spanFrom fun _ => ?_
  refine reads_noSuffix (Kind.of_continuesExpr hnext).2.2.1 ?_
  simp only [Expr.bare, hb]

/-! ### Operators -/

theorem reads_unary {op : UnOp} : ReadsExpr (exprLevel g least) (.unary op e span) := by
  intro next behind hnext
  have htokens : (Expr.unary op e span).tokens ++ next :: behind =
      .symbol op.sign :: (inParens e.tokens ++ next :: behind) := by
    simp [Expr.tokens]
  rw [htokens]
  refine reads_lastOperand hnext <| .rounds fun n hn => ?_
  -- one round for the operator, one for its operand
  obtain ⟨m, rfl⟩ : ∃ m, n = m + 2 := ⟨n - 2, by simp [inParens] at hn; omega⟩
  refine .here fun start => .kind ?_
  rw [unOp_sign]
  refine .advance (by simp) ?_
  refine .bind (reads_operandRounds rfl (reads_atom_inParens he (by simp)) fun b n hb =>
    reads_noSuffix (Kind.of_continuesExpr hnext).2.2.1 hb) fun a ha => ?_
  refine .pure ?_
  simp only [Expr.bare, ha]

theorem reads_leftOperand (hk : k.continuesOperand = false) :
    Reads (operand g) (inParens e.tokens ++ k :: ks) (k :: ks) (·.bare = e.bare) :=
  .round fun _ => reads_operandRounds rfl (reads_atom_inParens he (by simp))
    fun _ _ hb => reads_noSuffix hk hb

omit he in
theorem reads_operator {op : BinOp} {left : Expr} {p : Nat}
    (hp : precedence? (.symbol op.sign) = some p) (hleast : ¬ p < least) (hks : ks ≠ [])
    (hright : Reads (g.expr (p + 1)) ks ks1 P)
    (hmore : ∀ r, P r → Reads (operatorRounds g least
      (.binary op left r (left.span.merge r.span)) n) ks1 ks2 Q) :
    Reads (operatorRounds g least left (n + 1)) (.symbol op.sign :: ks) ks2 Q := by
  refine .kind ?_
  simp only [hp, if_neg hleast, binOp_sign]
  exact .advance hks <| .bind hright hmore

theorem reads_binary {op : BinOp} {r : Expr}
    (hr : ∀ p, ReadsUpTo (g.expr p) Kind.continuesExpr (inParens r.tokens) (·.bare = r.bare)) :
    ReadsExpr (exprLevel g 0) (.binary op e r span) := by
  intro next behind hnext
  have htokens : (Expr.binary op e r span).tokens ++ next :: behind = inParens e.tokens ++
      .symbol op.sign :: (inParens r.tokens ++ next :: behind) := by
    simp [Expr.tokens]
  rw [htokens]
  refine reads_exprLevel (reads_leftOperand he (sign_continuesOperand op)) fun b n hb => ?_
  obtain ⟨p, hp⟩ := precedence_sign op
  refine reads_operator hp (Nat.not_lt_zero p) (by simp) (hr _ hnext) fun a ha => ?_
  refine reads_noOperator (Kind.of_continuesExpr hnext).1 ?_
  simp only [Expr.bare, hb, ha]

theorem reads_cast {t : TypeExpr} (ht : ReadsType g.type t) :
    ReadsExpr (exprLevel g 0) (.cast e t span) := by
  intro next behind hnext
  have htokens : (Expr.cast e t span).tokens ++ next :: behind = inParens e.tokens ++
      .keyword .asKw :: (t.tokens ++ next :: behind) := by
    simp [Expr.tokens]
  rw [htokens]
  refine reads_exprLevel (reads_leftOperand he rfl) fun b n hb => ?_
  refine .kind (.advance (by simp) ?_)
  refine .bind (ht (Kind.of_continuesExpr hnext).2.1) fun a ha => ?_
  refine reads_noOperator (Kind.of_continuesExpr hnext).1 ?_
  simp only [Expr.bare, hb, ha]

end Operand

/-! ### Arguments and elements -/

theorem reads_array {es : List Expr} (hes : ∀ a ∈ es, ReadsExpr (g.expr 0) a) :
    ReadsExpr (exprLevel g least) (.array es span) := by
  intro next behind hnext
  have hitem : ∀ a ∈ es, ItemOf (g.expr 0) Kind.continuesExpr a.tokens (·.bare = a.bare) := by
    intro a ha
    obtain ⟨k, ks, hks, hends, -⟩ := a.begins_tokens
    exact ⟨hes a ha, k, ks, hks, hends⟩
  have htokens : (Expr.array es span).tokens ++ next :: behind = .symbol .lbracket ::
      (commas (es.map Expr.tokens) ++ .symbol .rbracket :: next :: behind) := by
    simp [Expr.tokens, inBrackets, Expr.tokensEach_eq_map]
  rw [htokens]
  refine reads_lastAtom hnext rfl (.kind (.here fun start => ?_))
  refine .expect (by simp) ?_
  refine .bind (.withLiterals (reads_listUntil _ rfl rfl rfl hitem)) fun as has => ?_
  refine .expect (by simp) <| .spanFrom fun _ => .pure ?_
  simp only [Expr.bare, Expr.bareAll_eq_map, has]

/-- An expression is not taken for an argument with a name. -/
theorem exists_unnamed (e : Expr) (behind : List Kind) (hnext : next.isSymbol .colon = false) :
    ∃ k k' ks, e.tokens ++ next :: behind = k :: k' :: ks ∧
      (k.isName && k'.isSymbol .colon) = false := by
  have hother : ∀ (k : Kind) (ks : List Kind), k.isName = false →
      ∃ k1 k2 ks', k :: ks ++ next :: behind = k1 :: k2 :: ks' ∧
        (k1.isName && k2.isSymbol .colon) = false := by
    intro k ks hk
    obtain ⟨k', ks', hks⟩ := List.exists_cons_of_ne_nil (l := ks ++ next :: behind) (by simp)
    exact ⟨k, k', ks', by rw [List.cons_append, hks], by rw [hk, Bool.false_and]⟩
  have hname : ∀ (name : String) (k : Kind) (ks : List Kind), k.isSymbol .colon = false →
      ∃ k1 k2 ks', ofName name :: k :: ks = k1 :: k2 :: ks' ∧
        (k1.isName && k2.isSymbol .colon) = false :=
    fun name k ks hk => ⟨_, _, _, rfl, by rw [hk, Bool.and_false]⟩
  cases e with
  | literal value _ =>
    cases value with
    | bool b => cases b <;> exact hother _ [] rfl
    | _ => exact hother _ [] rfl
  | ident name => exact hname _ _ _ hnext
  | generic name gs _ => exact hname _ _ _ rfl
  | structLit name gs args _ => cases gs <;> exact hname _ _ _ rfl
  | _ => exact hother _ _ rfl

theorem itemOf_arg {a : Arg} (hself : a.name.all (·.name != "self") = true)
    (h : ReadsExpr (g.expr 0) a.value) :
    ItemOf (arg g) (fun k => k.continuesExpr || k.isSymbol .colon) a.tokens (Arg.bare · = a.bare) := by
  obtain ⟨name, e, _⟩ := a
  cases name with
  | none =>
    obtain ⟨k, ks, hks, hends, -⟩ := e.begins_tokens
    refine ⟨fun next behind hnext => ?_, k, ks, hks, hends⟩
    obtain ⟨hnext, hcolon⟩ := Bool.or_eq_false_iff.mp hnext
    obtain ⟨k1, k2, ks', htokens, hunnamed⟩ := exists_unnamed e behind hcolon
    have he : Reads (g.expr 0) (k1 :: k2 :: ks') (next :: behind) (·.bare = e.bare) :=
      htokens ▸ h hnext
    show Reads _ (e.tokens ++ next :: behind) _ _
    rw [htokens]
    refine .here fun start => .kind (.peek ?_)
    simp only [hunnamed]
    refine .bind (.pure (Q := (· = none)) rfl) fun name hname => .bind he fun a ha => ?_
    refine .spanFrom fun _ => .pure ?_
    rw [hname, Arg.bare, ha]
    rfl
  | some name =>
    have hhead : ofName name.name = .name name.name := if_neg (bne_iff_ne.mp hself)
    refine ⟨fun next behind hnext => ?_, _, _, rfl, by rw [hhead]; rfl⟩
    obtain ⟨hnext, -⟩ := Bool.or_eq_false_iff.mp hnext
    show Reads _ (ofName name.name :: .symbol .colon :: (e.tokens ++ next :: behind)) _ _
    have hnamed : ((ofName name.name).isName && (Kind.symbol .colon).isSymbol .colon) = true := by
      rw [hhead]
      rfl
    refine .here fun start => .kind (.peek ?_)
    simp only [hnamed]
    refine .bind (reads_ident _ (by simp)) fun i hi => .advance (by simp) ?_
    refine .bind (.pure (Q := (· = some i)) rfl) fun name' hname => .bind (h hnext) fun a ha => ?_
    refine .spanFrom fun _ => .pure ?_
    rw [hname]
    simp only [Arg.bare, Option.map_some, Ident.bare, hi, ha]

def ReadsArgs (g : Grammar) (args : List Arg) : Prop :=
  ∀ a ∈ args, a.name.all (·.name != "self") = true ∧ ReadsExpr (g.expr 0) a.value

theorem reads_args {close : Symbol} {args : List Arg}
    (hclose : close = .rparen ∨ close = .rbrace) (hargs : ReadsArgs g args) :
    Reads (Parse.args g close) (commas (args.map Arg.tokens) ++ .symbol close :: ks)
      (.symbol close :: ks) fun as => Expr.bareArgs as = Expr.bareArgs args := by
  simp only [Expr.bareArgs_eq_map]
  have hitems := fun a ha => itemOf_arg (hargs a ha).1 (hargs a ha).2
  refine .withLiterals ?_
  rcases hclose with rfl | rfl <;> exact reads_listUntil _ rfl rfl rfl hitems

theorem reads_call {args : List Arg} (he : ReadsExpr (g.expr 0) e) (hargs : ReadsArgs g args) :
    ReadsExpr (exprLevel g least) (.call e args span) := by
  intro next behind hnext
  have htokens : (Expr.call e args span).tokens ++ next :: behind = inParens e.tokens ++
      .symbol .lparen :: (commas (args.map Arg.tokens) ++ .symbol .rparen :: next :: behind) := by
    simp [Expr.tokens, inParens, Expr.tokensArgs_eq_map]
  rw [htokens]
  refine reads_suffixed he hnext fun b n hb => .take (by simp) ?_
  refine .bind (reads_args (.inl rfl) hargs) fun as has => ?_
  refine .expect (by simp) <| .spanFrom fun _ => ?_
  refine reads_noSuffix (Kind.of_continuesExpr hnext).2.2.1 ?_
  simp only [Expr.bare, hb, has]

/-! ### Names -/

/-- A name and its type arguments have been read. -/
def namedRest (g : Grammar) (start : Span) (name : Ident) (explicit : Bool)
    (generics : List TypeExpr) : Parse Expr := do
  if (← at? .lbrace) && (← get).literals then
    advance
    let as ← args g .rbrace
    expect .rbrace
    return .structLit name generics as (← spanFrom start)
  if explicit then return .generic name generics (← spanFrom start)
  return .ident name

theorem named_eq (g : Grammar) : named g = (do
    let start ← here
    let name ← ident
    let explicit := (← at? .colonColon) && (← peek).isSymbol .lbracket
    let generics ← if explicit then do
        advance
        advance
        let generics ← listUntil .rbracket g.type
        expect .rbracket
        pure generics
      else pure []
    namedRest g start name explicit generics) := rfl

section Names

variable {name : Ident} {gs : List TypeExpr} {args : List Arg} {start : Span} {explicit : Bool}

theorem reads_atom_name {name : String} (h : Reads (named g) (ofName name :: ks) ks1 Q) :
    Reads (atom g) (ofName name :: ks) ks1 Q := by
  refine .kind ?_
  unfold ofName at h ⊢
  by_cases hself : name = "self"
  · rw [if_pos hself] at h ⊢
    exact h
  · rw [if_neg hself] at h ⊢
    exact h

theorem reads_named {name : String} (hk : k.isSymbol .colonColon = false)
    (hrest : ∀ start i, i.name = name → Reads (namedRest g start i false []) (k :: ks) ks1 Q) :
    Reads (named g) (ofName name :: k :: ks) ks1 Q := by
  rw [named_eq]
  refine .here fun start => .bind (reads_ident _ (by simp)) fun i hi => .at ?_
  refine .look fun c _ _ => ?_
  rw [hk]
  exact hrest start i hi

theorem reads_named_explicit {name : String} (hgs : ∀ t ∈ gs, ReadsType g.type t)
    (hrest : ∀ start i as, i.name = name → TypeExpr.bareAll as = TypeExpr.bareAll gs →
      Reads (namedRest g start i true as) (k :: ks) ks1 Q) :
    Reads (named g) (ofName name :: .symbol .colonColon ::
      (inBrackets (commas (TypeExpr.tokensEach gs)) ++ k :: ks)) ks1 Q := by
  have htokens : inBrackets (commas (TypeExpr.tokensEach gs)) ++ k :: ks = .symbol .lbracket ::
      (commas (gs.map TypeExpr.tokens) ++ .symbol .rbracket :: k :: ks) := by
    simp [inBrackets, TypeExpr.tokensEach_eq_map]
  rw [htokens, named_eq]
  refine .here fun start => .bind (reads_ident _ (by simp)) fun i hi => .at (.peek ?_)
  refine .advance (by simp) <| .advance (by simp) ?_
  refine .bind (reads_types hgs) fun as has => .expect (by simp) ?_
  exact hrest start i as hi has

theorem reads_namedRest {i : Ident} (hk : k.isSymbol .lbrace = false) :
    Reads (namedRest g start i explicit gs) (k :: ks) (k :: ks)
      fun e => e.bare = if explicit then .generic i.bare (TypeExpr.bareAll gs) default
        else .ident i.bare := by
  refine .at (.get fun c hlit => ?_)
  rw [hk]
  cases explicit with
  | true => exact .spanFrom fun _ => .pure rfl
  | false => exact .pure rfl

theorem reads_namedRest_literal {i : Ident} (hargs : ReadsArgs g args) :
    Reads (namedRest g start i explicit gs) (inBraces (commas (Expr.tokensArgs args)) ++ k :: ks)
      (k :: ks) fun e => e.bare = .structLit i.bare (TypeExpr.bareAll gs) (Expr.bareArgs args)
        default := by
  have htokens : inBraces (commas (Expr.tokensArgs args)) ++ k :: ks = .symbol .lbrace ::
      (commas (args.map Arg.tokens) ++ .symbol .rbrace :: k :: ks) := by
    simp [inBraces, Expr.tokensArgs_eq_map]
  rw [htokens]
  refine .at (.get fun c hlit => ?_)
  rw [hlit]
  refine .advance (by simp) ?_
  refine .bind (reads_args (.inr rfl) hargs) fun as has => ?_
  refine .expect (by simp) <| .spanFrom fun _ => .pure ?_
  simp only [Expr.bare, has]

theorem unOp_ofName (name : String) : unOp? (ofName name) = none := by
  unfold ofName
  split <;> rfl

theorem reads_atom_ident (hbrace : k.isSymbol .lbrace = false)
    (hcolons : k.isSymbol .colonColon = false) :
    Reads (atom g) (ofName name.name :: k :: ks) (k :: ks) (·.bare = (Expr.ident name).bare) := by
  refine reads_atom_name <| reads_named hcolons fun start i hi =>
    (reads_namedRest hbrace).mono fun e he => ?_
  rw [he]
  simp only [Expr.bare, Ident.bare, hi]
  rfl

theorem reads_name : ReadsExpr (exprLevel g least) (.ident name) := by
  intro next behind hnext
  obtain ⟨-, -, -, hbrace, hcolons⟩ := Kind.of_continuesExpr hnext
  exact reads_lastAtom hnext (unOp_ofName _) (reads_atom_ident hbrace hcolons)

theorem reads_generic (hgs : ∀ t ∈ gs, ReadsType g.type t) :
    ReadsExpr (exprLevel g least) (.generic name gs span) := by
  intro next behind hnext
  obtain ⟨-, -, -, hbrace, -⟩ := Kind.of_continuesExpr hnext
  refine reads_lastAtom hnext (unOp_ofName _) <| reads_atom_name <|
    reads_named_explicit hgs fun start i as hi has => (reads_namedRest hbrace).mono fun e he => ?_
  rw [he]
  simp only [Expr.bare, Ident.bare, hi, has]
  rfl

theorem reads_structLit (hgs : ∀ t ∈ gs, ReadsType g.type t) (hargs : ReadsArgs g args) :
    ReadsExpr (exprLevel g least) (.structLit name gs args span) := by
  intro next behind hnext
  cases gs with
  | nil =>
    refine reads_lastAtom hnext (unOp_ofName _) <| reads_atom_name <|
      reads_named rfl fun start i hi => (reads_namedRest_literal hargs).mono fun e he => ?_
    rw [he]
    simp only [Expr.bare, Ident.bare, hi]
  | cons t ts =>
    have htokens : (Expr.structLit name (t :: ts) args span).tokens ++ next :: behind =
        ofName name.name :: .symbol .colonColon ::
          (inBrackets (commas (TypeExpr.tokensEach (t :: ts))) ++
            (inBraces (commas (Expr.tokensArgs args)) ++ next :: behind)) := by
      simp [Expr.tokens]
    rw [htokens]
    refine reads_lastAtom hnext (unOp_ofName _) <| reads_atom_name <|
      reads_named_explicit hgs fun start i as hi has =>
        (reads_namedRest_literal hargs).mono fun e he => ?_
    rw [he]
    simp only [Expr.bare, Ident.bare, hi, has]

end Names

end Expressions

end Parse

end Syntax

end JaneCheck
