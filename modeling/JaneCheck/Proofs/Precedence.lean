import JaneCheck.Proofs.RoundTrip

/-!
# Operators by precedence

Atoms with operators between them and casts after them (`Chain`) are read into the tree
that has them in this order and in which no operator stands above one that binds less:
the operand on the left of an operator binds at least as tightly, that on the right more
tightly (`Ordered`). Such a tree is what the parser reads from its own tokens
(`reads_inOrder`), so there is only one. It exists, since an operator that is added at the
end takes its place on the right edge (`ordered_graft`).
-/

namespace JaneCheck

open Token

namespace Syntax

/-! ## Trees -/

def BinOp.precedence (op : BinOp) : Nat := (precedence? (.symbol op.sign)).getD 0

theorem precedence?_sign (op : BinOp) :
    precedence? (.symbol op.sign) = some op.precedence ∧ op.precedence ≤ 12 := by
  cases op <;> decide

/-- The precedence of the operator at the root; what has none there binds tightest. -/
def Expr.rank : Expr → Nat
  | .binary op _ _ _ => op.precedence
  | .cast .. => 12
  | _ => 13

/-- The tokens from left to right, without parentheses. -/
def Expr.inOrder : Expr → List Kind
  | .binary op l r _ => l.inOrder ++ .symbol op.sign :: r.inOrder
  | .cast e t _ => e.inOrder ++ .keyword .asKw :: t.tokens
  | e => e.tokens

inductive Expr.Atom : Expr → Prop
  | literal {value span} : Atom (.literal value span)
  | ident {name} : Atom (.ident name)

/-- Operators stand above what binds more tightly, and on the left also as tightly. -/
inductive Expr.Ordered : Expr → Prop
  | atom {e} (h : e.Atom) : Ordered e
  | binary {op l r span} (hl : Ordered l) (hr : Ordered r) (hleft : op.precedence ≤ l.rank)
      (hright : op.precedence < r.rank) : Ordered (.binary op l r span)
  | cast {e t span} (he : Ordered e) (hleft : 12 ≤ e.rank) (ht : t.wellFormed = true) :
      Ordered (.cast e t span)

theorem Expr.Ordered.length_pos {e : Expr} (h : e.Ordered) : 0 < e.inOrder.length := by
  cases h with
  | atom h => cases h <;> exact Nat.zero_lt_one
  | binary | cast =>
    rw [inOrder, List.length_append, List.length_cons]
    omega

/-- Atoms with operators between them, each with any number of casts. -/
inductive Chain : List Kind → Prop
  | atom {a : Expr} (h : a.Atom) : Chain a.inOrder
  | operator {ks} {op : BinOp} {a : Expr} (hks : Chain ks) (h : a.Atom) :
      Chain (ks ++ .symbol op.sign :: a.inOrder)
  | cast {ks} {t : TypeExpr} (hks : Chain ks) (ht : t.wellFormed = true) :
      Chain (ks ++ .keyword .asKw :: t.tokens)

/-! ## Existence -/

/-- Puts an operator of precedence `p` over the tightest part of the right edge that may
stand on its left. -/
def Expr.graft (p : Nat) (add : Expr → Expr) : Expr → Expr
  | .binary op l r span =>
    if p ≤ op.precedence then add (.binary op l r span) else .binary op l (r.graft p add) span
  | e => add e

theorem Expr.ordered_graft {p : Nat} {f : Expr → Expr} {ks : List Kind} (hp : p ≤ 12)
    (hadd : ∀ e : Expr, e.Ordered → p ≤ e.rank →
      (f e).Ordered ∧ p ≤ (f e).rank ∧ (f e).inOrder = e.inOrder ++ ks)
    {e : Expr} (he : e.Ordered) : (e.graft p f).Ordered ∧
      min p e.rank ≤ (e.graft p f).rank ∧ (e.graft p f).inOrder = e.inOrder ++ ks := by
  have hhere (e : Expr) (he : e.Ordered) (hle : p ≤ e.rank) : (f e).Ordered ∧
      min p e.rank ≤ (f e).rank ∧ (f e).inOrder = e.inOrder ++ ks := by
    obtain ⟨ho, hrank, hks⟩ := hadd e he hle
    exact ⟨ho, Nat.le_trans (Nat.min_le_left p _) hrank, hks⟩
  induction he with
  | atom h => cases h <;> exact hhere _ (.atom (by constructor)) (Nat.le_succ_of_le hp)
  | cast he hleft ht => exact hhere _ (.cast he hleft ht) hp
  | @binary op l r span hl hr hleft hright _ ihr =>
    obtain ⟨ho, hrank, hks⟩ := ihr
    unfold graft
    split
    next hle => exact hhere _ (.binary hl hr hleft hright) hle
    next hlt =>
      refine ⟨.binary hl ho hleft (by omega), Nat.min_le_right p _, ?_⟩
      simp [inOrder, hks]

theorem Chain.exists_ordered {ks : List Kind} (h : Chain ks) :
    ∃ e : Expr, e.Ordered ∧ e.inOrder = ks := by
  induction h with
  | @atom a h => exact ⟨a, .atom h, rfl⟩
  | @operator ks op a _ h ih =>
    obtain ⟨e, he, rfl⟩ := ih
    have hrank : a.rank = 13 := by cases h <;> rfl
    have hop := (precedence?_sign op).2
    obtain ⟨ho, -, hks⟩ := Expr.ordered_graft hop (f := fun l => .binary op l a default)
      (fun l hl hle => ⟨.binary hl (.atom h) hle (by omega), Nat.le_refl _, rfl⟩) he
    exact ⟨_, ho, hks⟩
  | @cast ks t _ ht ih =>
    obtain ⟨e, he, rfl⟩ := ih
    obtain ⟨ho, -, hks⟩ := Expr.ordered_graft (Nat.le_refl 12) (f := fun e => .cast e t default)
      (fun e he hle => ⟨.cast he hle ht, Nat.le_refl _, rfl⟩) he
    exact ⟨_, ho, hks⟩

/-! ## Reading -/

namespace Parse

/-- The token cannot continue an operand, and as an operator it binds at most so tightly. -/
structure Stops (k : Kind) (p : Nat) : Prop where
  operand : k.continuesOperand = false
  type : k.continuesType = false
  brace : k.isSymbol .lbrace = false
  colons : k.isSymbol .colonColon = false
  precedence : ∀ q, precedence? k = some q → q ≤ p

variable {k : Kind} {ks ks1 : List Kind} {p q least n m : Nat} {Q : Expr → Prop}

theorem Stops.mono (h : Stops k p) (hle : p ≤ q) : Stops k q :=
  { h with precedence := fun r hr => Nat.le_trans (h.precedence r hr) hle }

theorem stops_of_continuesExpr (h : k.continuesExpr = false) : Stops k p := by
  obtain ⟨hprecedence, htype, hoperand, hbrace, hcolons⟩ := Kind.of_continuesExpr h
  exact ⟨hoperand, htype, hbrace, hcolons, by simp [hprecedence]⟩

theorem stops_sign (op : BinOp) : Stops (.symbol op.sign) op.precedence := by
  refine ⟨sign_continuesOperand op, ?_, ?_, ?_, fun q hq => ?_⟩
  iterate 3 cases op <;> rfl
  rw [(precedence?_sign op).1] at hq
  exact Nat.le_of_eq (Option.some.inj hq).symm

theorem stops_as : Stops (.keyword .asKw) 12 :=
  ⟨rfl, rfl, rfl, rfl, fun _ h => Nat.le_of_eq (Option.some.inj h).symm⟩

theorem reads_stop {g : Grammar} {e : Expr} (h : Stops k p) (hleast : p < least) (he : Q e) :
    Reads (operatorRounds g least e n) (k :: ks) (k :: ks) Q := by
  cases n with
  | zero => exact .pure he
  | succ n =>
    refine .kind ?_
    split
    · exact .pure he
    next q hq =>
      rw [if_pos (Nat.lt_of_le_of_lt (h.precedence q hq) hleast)]
      exact .pure he

theorem reads_atom {g : Grammar} {e : Expr} (he : e.Atom) (hk : Stops k p) :
    Reads (operand g) (e.inOrder ++ k :: ks) (k :: ks) (·.bare = e.bare) := by
  have hsuffix : ∀ a n, a.bare = e.bare →
      Reads (suffixRounds g a (n + 1)) (k :: ks) (k :: ks) (·.bare = e.bare) :=
    fun _ _ ha => reads_noSuffix hk.operand ha
  cases he with
  | literal =>
    exact .round fun _ => reads_operandRounds (unOp_literal _) (reads_atom_literal _ (by simp)) hsuffix
  | ident =>
    exact .round fun _ =>
      reads_operandRounds (unOp_ofName _) (reads_atom_ident hk.brace hk.colons) hsuffix

/-- A tree in order is read up to a token that binds no tighter than its root. What is read
of the rest is then read with the tree on its left. -/
theorem reads_inOrder {e : Expr} (he : e.Ordered) (hn : e.inOrder.length ≤ n + 1)
    (hleast : least ≤ e.rank) (hk : Stops k e.rank)
    (hmore : ∀ left m, left.bare = e.bare → (k :: ks).length ≤ m →
      Reads (operatorRounds ⟨typeAt n, exprAt n⟩ least left m) (k :: ks) ks1 Q) :
    Reads (exprAt (n + 1) least) (e.inOrder ++ k :: ks) ks1 Q := by
  induction he generalizing n least k ks ks1 Q with
  | atom h => exact .bind (reads_atom h hk) fun a ha => .rounds fun m hm => hmore a m ha hm
  | @binary op l r span hl hr hleft hright ihl ihr =>
    have hpos := hl.length_pos
    simp only [Expr.inOrder, List.length_append, List.length_cons] at hn
    simp only [Expr.inOrder, List.append_assoc, List.cons_append]
    refine ihl (by omega) (Nat.le_trans hleast hleft) ((stops_sign op).mono hleft)
      fun left m hbare hm => ?_
    simp only [List.length_cons, List.length_append] at hm
    obtain ⟨m, rfl⟩ : ∃ i, m = i + 1 := ⟨m - 1, by omega⟩
    obtain ⟨n, rfl⟩ : ∃ i, n = i + 1 := ⟨n - 1, by omega⟩
    refine reads_operator (precedence?_sign op).1 (Nat.not_lt.mpr hleast) (by simp)
      (ihr (by omega) hright (hk.mono (Nat.le_of_lt hright)) fun a _ ha _ =>
        reads_stop hk (Nat.lt_succ_self _) ha) fun a ha => ?_
    exact hmore _ m (by simp only [Expr.bare, hbare, ha]) (by simp; omega)
  | @cast e t span he hleft ht ih =>
    simp only [Expr.inOrder, List.length_append, List.length_cons] at hn
    simp only [Expr.inOrder, List.append_assoc, List.cons_append]
    refine ih (by omega) (Nat.le_trans hleast hleft) (stops_as.mono hleft) fun left m hbare hm => ?_
    simp only [List.length_cons, List.length_append] at hm
    obtain ⟨m, rfl⟩ : ∃ i, m = i + 1 := ⟨m - 1, by omega⟩
    have hle : ¬ 12 < least := Nat.not_lt.mpr hleast
    refine .kind ?_
    simp only [precedence?, if_neg hle]
    have hpos := he.length_pos
    have htype := readsType_typeAt t ht n (by omega)
    refine .advance (by simp) <| .bind (htype hk.type) fun u hu => ?_
    exact hmore _ m (by simp only [Expr.bare, hbare, hu]) (by simp; omega)

theorem readsBack_inOrder {e : Expr} (he : e.Ordered) :
    ReadsBack expr Kind.continuesExpr e.inOrder (·.bare = e.bare) := by
  refine ReadsUpTo.readsBack fun next behind hnext => .rounds fun n hn => ?_
  rw [List.length_append] at hn
  refine reads_inOrder he (by omega) (Nat.zero_le _) (stops_of_continuesExpr hnext) fun a m ha _ => ?_
  exact reads_noOperator (Kind.of_continuesExpr hnext).1 ha

theorem kinds_beforeEnd (ks : List Kind) :
    (beforeEnd ks).literals = true ∧ (beforeEnd ks).kinds = ks ++ [.eof] := by
  cases ks <;> simp [beforeEnd, Cursor.ofTokens, Cursor.kinds, Cursor.tokens, Function.comp_def]

/-- What stands in order is the only tree in order with these tokens. -/
theorem ordered_unique {e e' : Expr} (he : e.Ordered) (he' : e'.Ordered)
    (h : e'.inOrder = e.inOrder) : e'.bare = e.bare := by
  have hread {e : Expr} (he : e.Ordered) :=
    readsBack_inOrder he (beforeEnd e.inOrder) .eof [] (kinds_beforeEnd _).1 (kinds_beforeEnd _).2 rfl
  obtain ⟨a, c, hrun, -, ha⟩ := hread he
  obtain ⟨a', c', hrun', -, ha'⟩ := hread he'
  rw [h, hrun] at hrun'
  cases hrun'
  exact ha'.symm.trans ha

/-- A chain of atoms, operators and casts is read into the one tree that has its tokens in
this order and its operators in the order of their precedence. -/
theorem parse_chain {ks : List Kind} (h : Chain ks) : ∃ e : Expr, e.Ordered ∧ e.inOrder = ks ∧
    ReadsBack expr Kind.continuesExpr ks (·.bare = e.bare) ∧
    ∀ e' : Expr, e'.Ordered → e'.inOrder = ks → e'.bare = e.bare := by
  obtain ⟨e, he, rfl⟩ := h.exists_ordered
  exact ⟨e, he, rfl, readsBack_inOrder he, fun e' he' h' => ordered_unique he he' h'⟩

/-- `a + b * c as t[u] - 1`, which is `(a + (b * (c as t[u]))) - 1`. -/
def mixed : Expr :=
  .binary .sub (.binary .add (.ident ⟨"a", default⟩) (.binary .mul (.ident ⟨"b", default⟩)
    (.cast (.ident ⟨"c", default⟩) (.named ⟨"t", default⟩ [.named ⟨"u", default⟩ [] default] default)
      default) default) default) (.literal (.int 1) default) default

theorem parse_chain_mixed : Chain mixed.inOrder ∧ ∃ e c', expr (beforeEnd mixed.inOrder) =
    .ok (e, c') ∧ c'.tokens = [⟨.eof, default⟩] ∧ e.bare = mixed.bare := by
  have hchain : Chain mixed.inOrder :=
    .operator (.cast (.operator (.operator (.atom .ident) .ident) .ident) (by decide)) .literal
  have hmixed : mixed.Ordered :=
    .binary (.binary (.atom .ident) (.binary (.atom .ident) (.cast (.atom .ident) (by decide)
      (by decide)) (by decide) (by decide)) (by decide) (by decide)) (.atom .literal) (by decide)
      (by decide)
  obtain ⟨t, -, -, hread, hunique⟩ := parse_chain hchain
  obtain ⟨e, c', hrun, htokens, he⟩ := hread (beforeEnd mixed.inOrder) .eof [] rfl rfl rfl
  exact ⟨hchain, e, c', hrun, htokens, he.trans (hunique mixed hmixed rfl).symm⟩

end Parse

end Syntax

end JaneCheck
