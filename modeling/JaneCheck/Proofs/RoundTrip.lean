import JaneCheck.Proofs.RoundTrip.Expressions

/-!
# What is rendered is read back

A tree is read back from its rendering by induction on the tree. Each level of the
grammar reads a token, so a rendering has tokens for all levels below it.
-/

namespace JaneCheck

open Token

namespace Syntax

namespace Parse

theorem length_commas_cons (ks : List Kind) (items : List (List Kind)) :
    ks.length ≤ (commas (ks :: items)).length ∧
      (commas items).length ≤ (commas (ks :: items)).length := by
  cases items with
  | nil =>
    rw [commas_single]
    exact ⟨Nat.le_refl _, Nat.zero_le _⟩
  | cons second items =>
    rw [commas_cons_cons, List.length_append, List.length_cons]
    omega

theorem length_commas_le_dotLast (dots : Bool) (items : List (List Kind)) :
    (commas items).length ≤ (commas (dotLast dots items)).length := by
  fun_induction dotLast dots items with
  | case1 => exact Nat.le_refl _
  | case2 item =>
    rw [commas_single, commas_single]
    split
    · exact Nat.le_succ _
    · exact Nat.le_refl _
  | case3 item items hne ih =>
    obtain ⟨second, items, rfl⟩ := List.exists_cons_of_ne_nil (l := items) fun h => hne (h ▸ rfl)
    obtain ⟨second', items', hdots⟩ : ∃ ks kss, dotLast dots (second :: items) = ks :: kss := by
      cases items <;> exact ⟨_, _, rfl⟩
    rw [hdots] at ih ⊢
    rw [commas_cons_cons, commas_cons_cons]
    simp only [List.length_append, List.length_cons]
    omega

mutual

theorem readsType_typeAt (t : TypeExpr) (hwf : t.wellFormed = true) (n : Nat)
    (hn : t.tokens.length ≤ n) : ReadsType (typeAt n) t := by
  cases n with
  | zero =>
    obtain ⟨k, ks, hks, -⟩ := t.begins_tokens
    rw [hks] at hn
    cases hn
  | succ n =>
    show ReadsType (typeLevel ⟨typeAt n, exprAt n⟩) t
    cases t
    all_goals try simp only [TypeExpr.wellFormed, TypeExpr.tokens, inParens, inBrackets,
      Bool.and_eq_true, decide_eq_true_eq, bne_iff_ne, List.length_append, List.length_cons] at hwf hn
    case named name gs _ =>
      cases gs with
      | nil => exact reads_named_nil hwf.1
      | cons u us =>
        simp only [TypeExpr.tokens, inBrackets, List.length_cons, List.length_append] at hn
        exact reads_named_cons hwf.1 (readsType_typeAt_all (u :: us) hwf.2 n (by omega))
    case pointer t _ => exact reads_pointer (readsType_typeAt t hwf n (by omega))
    case reference t _ => exact reads_reference (readsType_typeAt t hwf n (by omega))
    case rawPointer _ => exact reads_rawPointer
    case slice t _ => exact reads_slice (readsType_typeAt t hwf n (by omega))
    case array size t _ =>
      cases size with
      | none =>
        simp only [TypeExpr.tokens, inBrackets, List.length_append, List.length_cons] at hn
        exact reads_array_none (readsType_typeAt t hwf n (by omega))
      | some e =>
        simp only [TypeExpr.wellFormed, Bool.and_eq_true] at hwf
        simp only [TypeExpr.tokens, inBrackets, inParens, List.length_append,
          List.length_cons] at hn
        -- a level for the parentheses of the size
        obtain ⟨m, rfl⟩ : ∃ m, n = m + 1 := ⟨n - 1, by omega⟩
        have he := readsExpr_exprAt e hwf.1 m (by omega)
        exact reads_array_some (reads_inParens he 0) (readsType_typeAt t hwf.2 (m + 1) (by omega))
    case map k v _ =>
      exact reads_map (readsType_typeAt k hwf.1 n (by omega)) (readsType_typeAt v hwf.2 n (by omega))
    case function ts variadic result _ =>
      have hlength := length_commas_le_dotLast variadic (TypeExpr.tokensEach ts)
      cases result with
      | none =>
        simp only [TypeExpr.wellFormed, Bool.and_eq_true] at hwf
        simp only [TypeExpr.tokens, inParens, List.length_append, List.length_cons] at hn
        refine reads_function_none (readsType_typeAt_all ts hwf.2 n (by omega)) ?_
        rintro rfl
        simpa using hwf.1
      | some t =>
        simp only [TypeExpr.wellFormed, Bool.and_eq_true] at hwf
        simp only [TypeExpr.tokens, inParens, List.length_append, List.length_cons] at hn
        refine reads_function_some (readsType_typeAt_all ts hwf.1.2 n (by omega)) ?_
          (readsType_typeAt t hwf.2 n (by omega))
        rintro rfl
        simpa using hwf.1.1
    case tuple ts _ => exact reads_tuple hwf.1 (readsType_typeAt_all ts hwf.2 n (by omega))

theorem readsType_typeAt_all (ts : List TypeExpr) (hwf : TypeExpr.wellFormedAll ts = true) (n : Nat)
    (hn : (commas (TypeExpr.tokensEach ts)).length ≤ n) : ∀ t ∈ ts, ReadsType (typeAt n) t := by
  cases ts with
  | nil => simp
  | cons t ts =>
    simp only [TypeExpr.wellFormedAll, Bool.and_eq_true] at hwf
    have hlength := length_commas_cons t.tokens (TypeExpr.tokensEach ts)
    simp only [TypeExpr.tokensEach] at hn
    exact List.forall_mem_cons.mpr ⟨readsType_typeAt t hwf.1 n (by omega),
      readsType_typeAt_all ts hwf.2 n (by omega)⟩

theorem readsExpr_exprAt (e : Expr) (hwf : e.wellFormed = true) (n : Nat)
    (hn : e.tokens.length ≤ n) : ReadsExpr (exprAt n 0) e := by
  cases n with
  | zero =>
    obtain ⟨k, ks, hks, -⟩ := e.begins_tokens
    rw [hks] at hn
    cases hn
  | succ n =>
    show ReadsExpr (exprLevel ⟨typeAt n, exprAt n⟩ 0) e
    cases e
    all_goals simp only [Expr.wellFormed, Expr.tokens, inParens, inBrackets, Bool.and_eq_true,
      List.length_append, List.length_cons] at hwf hn
    case literal value _ => exact reads_literal value
    case ident name => exact reads_name
    case generic name gs _ => exact reads_generic (readsType_typeAt_all gs hwf n (by omega))
    case binary op l r _ =>
      -- a level for the parentheses of the right operand
      obtain ⟨m, rfl⟩ : ∃ m, n = m + 1 := ⟨n - 1, by omega⟩
      have hr := readsExpr_exprAt r hwf.2 m (by omega)
      exact reads_binary (readsExpr_exprAt l hwf.1 (m + 1) (by omega)) fun p => reads_inParens hr p
    case unary op e _ => exact reads_unary (readsExpr_exprAt e hwf n (by omega))
    case call f args _ =>
      exact reads_call (readsExpr_exprAt f hwf.1 n (by omega))
        (readsExpr_exprAt_args args hwf.2 n (by omega))
    case field e name _ => exact reads_field (readsExpr_exprAt e hwf n (by omega))
    case index e i _ =>
      exact reads_index (readsExpr_exprAt e hwf.1 n (by omega))
        (readsExpr_exprAt i hwf.2 n (by omega))
    case structLit name gs args _ =>
      have hlengths : (commas (TypeExpr.tokensEach gs)).length ≤ n ∧
          (commas (Expr.tokensArgs args)).length ≤ n := by
        cases gs <;> simp only [Expr.tokens, TypeExpr.tokensEach, commas, inBrackets, inBraces,
          List.intercalate_nil, List.length_nil, List.length_append, List.length_cons] at hn ⊢ <;>
          omega
      exact reads_structLit (readsType_typeAt_all gs hwf.1 n hlengths.1)
        (readsExpr_exprAt_args args hwf.2 n hlengths.2)
    case array es _ => exact reads_array (readsExpr_exprAt_all es hwf n (by omega))
    case cast e t _ =>
      exact reads_cast (readsExpr_exprAt e hwf.1 n (by omega))
        (readsType_typeAt t hwf.2 n (by omega))
    case spread e _ => exact reads_spread (readsExpr_exprAt e hwf n (by omega))

theorem readsExpr_exprAt_all (es : List Expr) (hwf : Expr.wellFormedAll es = true) (n : Nat)
    (hn : (commas (Expr.tokensEach es)).length ≤ n) : ∀ e ∈ es, ReadsExpr (exprAt n 0) e := by
  cases es with
  | nil => simp
  | cons e es =>
    simp only [Expr.wellFormedAll, Bool.and_eq_true] at hwf
    have hlength := length_commas_cons e.tokens (Expr.tokensEach es)
    simp only [Expr.tokensEach] at hn
    exact List.forall_mem_cons.mpr ⟨readsExpr_exprAt e hwf.1 n (by omega),
      readsExpr_exprAt_all es hwf.2 n (by omega)⟩

theorem readsExpr_exprAt_args (args : List Arg) (hwf : Expr.wellFormedArgs args = true) (n : Nat)
    (hn : (commas (Expr.tokensArgs args)).length ≤ n) : ReadsArgs ⟨typeAt n, exprAt n⟩ args := by
  cases args with
  | nil => simp [ReadsArgs]
  | cons a args =>
    obtain ⟨name, e, span⟩ := a
    simp only [Expr.wellFormedArgs, Bool.and_eq_true] at hwf
    have hlength := length_commas_cons (Arg.tokens ⟨name, e, span⟩) (Expr.tokensArgs args)
    have hvalue : e.tokens.length ≤ (Arg.tokens ⟨name, e, span⟩).length := by
      cases name <;> simp only [Arg.tokens, List.length_cons] <;> omega
    have hall : Expr.tokensArgs (⟨name, e, span⟩ :: args) =
        Arg.tokens ⟨name, e, span⟩ :: Expr.tokensArgs args := by
      cases name <;> rfl
    rw [hall] at hn
    exact List.forall_mem_cons.mpr ⟨⟨hwf.1.1, readsExpr_exprAt e hwf.1.2 n (by omega)⟩,
      readsExpr_exprAt_args args hwf.2 n (by omega)⟩

end

/-- Where the kinds of the tokens are `ks` and one that cannot continue them, the parser
reads exactly these tokens, into something with `Q`. -/
def ReadsBack (p : Parse α) (continues : Kind → Bool) (ks : List Kind) (Q : α → Prop) : Prop :=
  ∀ (c : Cursor) (next : Kind) (behind : List Kind), c.literals = true →
    c.kinds = ks ++ next :: behind → continues next = false →
    ∃ a c', p c = .ok (a, c') ∧ c'.tokens = c.tokens.drop ks.length ∧ Q a

theorem ReadsUpTo.readsBack {p : Parse α} {continues : Kind → Bool} {ks : List Kind}
    {Q : α → Prop} (h : ReadsUpTo p continues ks Q) : ReadsBack p continues ks Q := by
  intro c next behind hlit hkinds hnext
  obtain ⟨a, c', hrun, -, hkinds', hsuffix, ha⟩ := h hnext hlit hkinds
  refine ⟨a, c', hrun, ?_, ha⟩
  have hlength : c.tokens.length = ks.length + c'.tokens.length := by
    have hbefore := congrArg List.length hkinds
    have hafter := congrArg List.length hkinds'
    rw [Cursor.kinds, List.length_map] at hbefore hafter
    rw [hbefore, hafter, List.length_append]
  have hdrop := List.suffix_iff_eq_drop.mp hsuffix
  rwa [hlength, Nat.add_sub_cancel] at hdrop

/-- Types and expressions are read back from their renderings, up to their places. -/
theorem parse_tokens :
    (∀ e : Expr, e.wellFormed = true →
      ReadsBack expr Kind.continuesExpr e.tokens (·.bare = e.bare)) ∧
    ∀ t : TypeExpr, t.wellFormed = true →
      ReadsBack type Kind.continuesType t.tokens (·.bare = t.bare) := by
  constructor
  · intro e he
    refine ReadsUpTo.readsBack fun next behind hnext => .rounds fun n hn => ?_
    rw [List.length_append] at hn
    exact readsExpr_exprAt e he (n + 1) (by omega) hnext
  · intro t ht
    refine ReadsUpTo.readsBack fun next behind hnext => .rounds fun n hn => ?_
    rw [List.length_append] at hn
    exact readsType_typeAt t ht (n + 1) (by omega) hnext

/-- `[(n)](t, fn(t, ...t) -> *unsafe)`. -/
def sized : TypeExpr :=
  .array (some (.ident ⟨"n", default⟩)) (.tuple [.named ⟨"t", default⟩ [] default,
    .function [.named ⟨"t", default⟩ [] default, .named ⟨"t", default⟩ [] default] true
      (some (.rawPointer default)) default] default) default

/-- `(f)(x: ((a) + (-(b))) as [(n)](t, fn(t, ...t) -> *unsafe), s { })`. -/
def sizedCast : Expr :=
  .call (.ident ⟨"f", default⟩) [⟨some ⟨"x", default⟩, .cast (.binary .add (.ident ⟨"a", default⟩)
    (.unary .neg (.ident ⟨"b", default⟩) default) default) sized default, default⟩,
    ⟨none, .structLit ⟨"s", default⟩ [] [] default, default⟩] default

/-- A cursor before tokens of the given kinds and the end. -/
def beforeEnd (ks : List Kind) : Cursor := .ofTokens ((ks ++ [Kind.eof]).map fun k => ⟨k, default⟩)

theorem parse_tokens_sized :
    (∃ e c', expr (beforeEnd sizedCast.tokens) = .ok (e, c') ∧
      c'.tokens = [⟨.eof, default⟩] ∧ e.bare = sizedCast.bare) ∧
    ∃ t c', type (beforeEnd sized.tokens) = .ok (t, c') ∧
      c'.tokens = [⟨.eof, default⟩] ∧ t.bare = sized.bare :=
  ⟨parse_tokens.1 sizedCast (by decide) (beforeEnd sizedCast.tokens) .eof [] rfl rfl rfl,
    parse_tokens.2 sized (by decide) (beforeEnd sized.tokens) .eof [] rfl rfl rfl⟩

end Parse

end Syntax

end JaneCheck
