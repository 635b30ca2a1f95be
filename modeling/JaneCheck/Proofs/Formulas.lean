import JaneCheck.Check.Eval
import JaneCheck.Proofs.References
import JaneCheck.Proofs.Rendering
import JaneCheck.Proofs.Scalars

/-!
# Formulas

A formula is built from literals, names and the operators that take scalars to
scalars. Where names have initial values that are formulas too, `Means` says
which value a formula has: it replaces names by what their initial values come
to. There is such a value unless a name in the formula leads to a cycle of
references (`Means.acc`). It depends on the initial values alone, not on
positions and not on other definitions (`Means.transfer`).
-/

namespace JaneCheck

open Relation (ReflTransGen TransGen)

open Syntax (BinOp Expr GlobalDef Ident UnOp)

namespace Syntax

/-- The operators that take a scalar to a scalar. -/
def UnOp.isScalar : UnOp → Bool
  | .neg | .plus | .not | .bitNot => true
  | .deref | .addressOf => false

/-- Literals, names of a set and operators on scalars. -/
inductive Expr.Formula (known : String → Prop) : Expr → Prop
  | literal {l span} : Formula known (.literal l span)
  | name {i} (h : known i.name) : Formula known (.ident i)
  | unary {op e span} (hop : op.isScalar = true) (h : Formula known e) :
      Formula known (.unary op e span)
  | binary {op l r span} (hl : Formula known l) (hr : Formula known r) :
      Formula known (.binary op l r span)

/-- The name occurs in the formula. -/
inductive Expr.Mentions : Expr → String → Prop
  | name {i : Ident} : Mentions (.ident i) i.name
  | operand {op e span name} (h : Mentions e name) : Mentions (.unary op e span) name
  | left {op l r span name} (h : Mentions l name) : Mentions (.binary op l r span) name
  | right {op l r span name} (h : Mentions r name) : Mentions (.binary op l r span) name

/-- The declarations differ in their places and types at most. -/
structure GlobalDef.Alike (d d' : GlobalDef) : Prop where
  constant : d.constant = d'.constant
  mutable : d.mutable = d'.mutable
  value : d.value.bare = d'.value.bare

end Syntax

/-! ## Values -/

/-- What is stored of the initial value of a global that has no type of its own. -/
def Syntax.GlobalDef.stored (ws : WordSize) (d : GlobalDef) (v : Value) : Value :=
  if v.type.isNil || v.type.isVoid then .void
  else
    { Value.place v.type d.mutable with
      constant := if d.constant then v.constant.map (·.pin ws v.type) else none }

theorem Syntax.GlobalDef.Alike.stored {d d' : GlobalDef} (h : d.Alike d') (ws : WordSize)
    (v : Value) : d.stored ws v = d'.stored ws v := by
  rw [GlobalDef.stored, GlobalDef.stored, h.mutable, h.constant]

/-- The result of a unary operator; void stays void. -/
def Value.applied (op : UnOp) (v : Value) : Value :=
  if v.type.isVoid then .void else (Check.unaryValue? op v).getD .void

/-- The result of a binary operator; nothing is computed with void. -/
def Value.combined (S : Setting) (op : BinOp) (l r : Value) : Value :=
  if l.type.isVoid || r.type.isVoid then .void else (Operator.solve S l op r).1

/-! ## Meaning -/

/-- The value that a formula has when each name has the value of its declaration. -/
inductive Means (D : String → Option GlobalDef) (S : Setting) : Expr → Value → Prop
  | literal {l span} : Means D S (.literal l span) (Check.literal l)
  | name {i d v} (hd : D i.name = some d) (hv : Means D S d.value v) :
      Means D S (.ident i) (d.stored S.wordSize v)
  | unary {op e span v} (hop : op.isScalar = true) (hv : Means D S e v) :
      Means D S (.unary op e span) (v.applied op)
  | binary {op l r span u v} (hl : Means D S l u) (hr : Means D S r v) :
      Means D S (.binary op l r span) (.combined S op u v)

/-- The declaration of the first name mentions the second. -/
def Refers (D : String → Option GlobalDef) (a b : String) : Prop :=
  ∃ d, D a = some d ∧ d.value.Mentions b

section Meaning

variable {D D' : String → Option GlobalDef} {S : Setting} {e e' : Expr} {v v' : Value}

/-- Positions do not matter. -/
theorem Means.transfer
    (hD : ∀ {name d}, D name = some d → ∃ d', D' name = some d' ∧ d.Alike d')
    (h : Means D S e v) (he : e.bare = e'.bare) : Means D' S e' v := by
  induction h generalizing e' with
  | literal =>
    cases e' with
    | literal l' span' =>
      cases he
      exact .literal
    | _ => simp at he
  | @name i d v hd _ ih =>
    obtain ⟨d', hd', halike⟩ := hD hd
    cases e' with
    | ident i' =>
      have hi : i.name = i'.name := (Ident.mk.inj (Expr.ident.inj he)).1
      rw [halike.stored]
      exact .name (hi ▸ hd') (ih halike.value)
    | _ => simp at he
  | unary hop _ ih =>
    cases e' with
    | unary op' e' span' =>
      obtain ⟨rfl, he, -⟩ := Expr.unary.inj he
      exact .unary hop (ih he)
    | _ => simp at he
  | binary _ _ ihl ihr =>
    cases e' with
    | binary op' l' r' span' =>
      obtain ⟨rfl, hl, hr, -⟩ := Expr.binary.inj he
      exact .binary (ihl hl) (ihr hr)
    | _ => simp at he

/-- What is mentioned where there is a value refers to nothing without end. -/
theorem Means.acc (h : Means D S e v) {name : String} (hname : e.Mentions name) :
    Acc (fun b a => Refers D a b) name := by
  induction h generalizing name with
  | literal => cases hname
  | name hd _ ih =>
    cases hname
    refine .intro _ fun b hb => ?_
    obtain ⟨d', hd', hb⟩ := hb
    cases hd.symm.trans hd'
    exact ih hb
  | unary _ _ ih =>
    cases hname with
    | operand h => exact ih h
  | binary _ _ ihl ihr =>
    cases hname with
    | left h => exact ihl h
    | right h => exact ihr h

/-- A formula that leads to a cycle has no value. -/
theorem Means.not_reaches (h : Means D S e v) {a b : String} (ha : e.Mentions a)
    (hab : ReflTransGen (Refers D) a b) : ¬ TransGen (Refers D) b b := by
  have hacc : Acc (fun b a => Refers D a b) b := by
    induction hab with
    | refl => exact h.acc ha
    | tail _ hbc ih => exact ih.inv hbc
  exact Outline.not_transGen_of_acc hacc

/-! ## Scalars -/

/-- The value has a scalar type or none, and is not a type. -/
structure Value.Simple (v : Value) : Prop where
  type : v.type.Scalar ∨ v.type = .void
  isType : v.isType = false

theorem Value.simple_void : Value.void.Simple := ⟨.inr rfl, rfl⟩

theorem Value.Simple.scalar (h : v.Simple) (hvoid : v.type.isVoid = false) : v.type.Scalar := by
  rcases h.type with hscalar | htype
  · exact hscalar
  · rw [htype] at hvoid
    cases hvoid

theorem simple_literal (l : Syntax.Literal) : (Check.literal l).Simple := by
  cases l with
  | int n =>
    show Value.Simple (if n.toNat < Nat.pow 2 63 then _ else _)
    split
    · exact ⟨.inl ⟨_, rfl, rfl⟩, rfl⟩
    · exact ⟨.inl ⟨_, rfl, rfl⟩, rfl⟩
  | _ => exact ⟨.inl ⟨_, rfl, rfl⟩, rfl⟩

theorem Value.Simple.stored (h : v.Simple) (ws : WordSize) (d : GlobalDef) :
    (d.stored ws v).Simple := by
  unfold GlobalDef.stored
  split
  · exact simple_void
  · exact ⟨h.type, rfl⟩

theorem Value.Simple.applied (h : v.Simple) {op : UnOp} (hop : op.isScalar = true) :
    (v.applied op).Simple := by
  have hresult : ∀ w, Check.unaryValue? op v = some w → w.Simple := by
    intro w hw
    unfold Check.unaryValue? at hw
    cases op with
    | neg | plus | bitNot | not =>
      dsimp only at hw
      split at hw
      · cases hw
        exact ⟨h.type, rfl⟩
      · cases hw
    | deref | addressOf => cases hop
  unfold Value.applied
  split
  · exact simple_void
  · cases hw : Check.unaryValue? op v with
    | none => exact simple_void
    | some w => exact hresult w hw

theorem Value.Simple.combined {u : Value} (hu : u.Simple) (hv : v.Simple) (S : Setting) (op : BinOp) :
    (Value.combined S op u v).Simple := by
  unfold Value.combined
  cases hvoid : u.type.isVoid || v.type.isVoid with
  | true => exact simple_void
  | false =>
    obtain ⟨huvoid, hvvoid⟩ := Bool.or_eq_false_iff.mp hvoid
    have hwithin : Operator.Within _ (Operator.solve S u op v) :=
      Operator.within_solve_scalar (hu.scalar huvoid) (hv.scalar hvvoid)
    exact ⟨hwithin.type, hwithin.isValue⟩

theorem Means.simple (h : Means D S e v) : v.Simple := by
  induction h with
  | literal => exact simple_literal _
  | name _ _ ih => exact ih.stored _ _
  | unary hop _ ih => exact ih.applied hop
  | binary _ _ ihl ihr => exact ihl.combined ihr _ _

end Meaning

end JaneCheck
