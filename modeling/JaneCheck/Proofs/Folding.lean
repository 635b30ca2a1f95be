import JaneCheck.Proofs.Ranges
import JaneCheck.Proofs.Runs
import JaneCheck.Proofs.Scalars

/-!
# Folding of integer expressions

A tree of integer literals and operators on words has a value in two's
complement arithmetic of 64 bits (`IntTree.value`). Evaluation folds it to that
value. Each operation gives its result the narrowest type that holds it, so the
types of the operands change from node to node; all of them are signed, which is
all that the next operation looks at (`solve_words`).
-/

namespace JaneCheck

open Syntax (BinOp Expr)

/-! ## Words -/

/-- The operators that fold two signed words to a signed word. -/
inductive WordOp where
  | add | sub | mul | div | mod | bitAnd | bitOr | bitXor
  deriving DecidableEq, Repr

namespace WordOp

def binOp : WordOp → BinOp
  | .add => .add
  | .sub => .sub
  | .mul => .mul
  | .div => .div
  | .mod => .mod
  | .bitAnd => .bitAnd
  | .bitOr => .bitOr
  | .bitXor => .bitXor

/-- The number that the low 64 bits of a number stand for. -/
def wrap (x : Int) : Int := x.bmod (2 ^ 64)

/-- The operation on bits, as one on numbers. -/
def onBits (f : BitVec 64 → BitVec 64 → BitVec 64) (a b : Int) : Int :=
  (f (BitVec.ofInt 64 a) (BitVec.ofInt 64 b)).toInt

/-- Arithmetic wraps, division truncates, and what is divided by zero is zero. -/
def apply : WordOp → Int → Int → Int
  | .add, a, b => wrap (a + b)
  | .sub, a, b => wrap (a - b)
  | .mul, a, b => wrap (a * b)
  | .div, a, b => if b = 0 then 0 else wrap (a.tdiv b)
  | .mod, a, b => if b = 0 then 0 else a.tmod b
  | .bitAnd, a, b => onBits (· &&& ·) a b
  | .bitOr, a, b => onBits (· ||| ·) a b
  | .bitXor, a, b => onBits (· ^^^ ·) a b

def divides : WordOp → Bool
  | .div | .mod => true
  | _ => false

end WordOp

namespace Operator

/-- Folding two words gives the word of the operation on their numbers, and reports a
division by zero. -/
theorem foldSigned_word (op : WordOp) (a b : Int64) :
    ∃ w : Int64, w.toInt = op.apply a.toInt b.toInt ∧
      foldSigned op.binOp a b =
        (some (.int w), if op.divides ∧ b.toInt = 0 then [.divideByZero] else []) := by
  have hzero : b = 0 ↔ b.toInt = 0 := by
    rw [← Int64.toInt_inj]
    rfl
  have hbits : ∀ (f : BitVec 64 → BitVec 64 → BitVec 64) (w : Int64),
      w.toBitVec = f a.toBitVec b.toBitVec → w.toInt = WordOp.onBits f a.toInt b.toInt := by
    intro f w hw
    rw [WordOp.onBits, ← Int64.toInt_toBitVec a, ← Int64.toInt_toBitVec b, BitVec.ofInt_toInt,
      BitVec.ofInt_toInt, ← Int64.toInt_toBitVec, hw]
  cases op with
  | add => exact ⟨a + b, Int64.toInt_add a b, rfl⟩
  | sub => exact ⟨a - b, Int64.toInt_sub a b, rfl⟩
  | mul => exact ⟨a * b, Int64.toInt_mul a b, rfl⟩
  | div =>
    by_cases hb : b.toInt = 0
    · exact ⟨0, by simp [WordOp.apply, hb],
        by simp [foldSigned, WordOp.binOp, WordOp.divides, hzero, hb]⟩
    · exact ⟨a / b, by simp [WordOp.apply, hb, WordOp.wrap, Int64.toInt_div],
        by simp [foldSigned, WordOp.binOp, WordOp.divides, hzero, hb]⟩
  | mod =>
    by_cases hb : b.toInt = 0
    · exact ⟨0, by simp [WordOp.apply, hb],
        by simp [foldSigned, WordOp.binOp, WordOp.divides, hzero, hb]⟩
    · exact ⟨a % b, by simp [WordOp.apply, hb, Int64.toInt_mod],
        by simp [foldSigned, WordOp.binOp, WordOp.divides, hzero, hb]⟩
  | bitAnd => exact ⟨a &&& b, hbits _ _ (Int64.toBitVec_and a b), rfl⟩
  | bitOr => exact ⟨a ||| b, hbits _ _ (Int64.toBitVec_or a b), rfl⟩
  | bitXor => exact ⟨a ^^^ b, hbits _ _ (Int64.toBitVec_xor a b), rfl⟩

/-- A known number of a signed type. -/
def signedConst (c : Category) (x : Int64) : Value := .ofConst (.base c) (.int x)

theorem signed_cases {c : Category} (h : c.isSigned = true) :
    c.isScalar = true ∧ c.isNumeric = true ∧ (c == .nil) = false ∧ (c == .bool) = false ∧
      (c == .str) = false ∧ c.isFloat = false ∧ c.isUnsigned = false := by
  revert h
  cases c <;> decide

theorem isVoid_signed {c : Category} (h : c.isSigned = true) : (Ty.base c).isVoid = false := by
  revert h
  cases c <;> decide

theorem operate_signed {s : Setting} {cl cr : Category} (hl : cl.isSigned = true)
    (hr : cr.isSigned = true) (op : WordOp) (a b : Int64) :
    operate s (signedConst cl a) op.binOp (signedConst cr b) =
      arithmetic (signedConst cl a) op.binOp (signedConst cr b)
        (promoted s (.base cl) (.base cr)) := by
  obtain ⟨hlscalar, hlnumeric, hlnil, hlbool, hlstr, hlfloat, hlunsigned⟩ := signed_cases hl
  obtain ⟨hrscalar, hrnumeric, hrnil, hrbool, hrstr, hrfloat, hrunsigned⟩ := signed_cases hr
  have hop : (op.binOp == .and || op.binOp == .or) = false := by cases op <;> rfl
  unfold operate
  rw [dispatch_scalar _ ⟨cl, hlscalar, rfl⟩ ⟨cr, hrscalar, rfl⟩]
  simp only [hop, signedConst, Value.ofConst, Ty.isNil, Ty.category, hlnil, hlbool, hlstr, hlfloat,
    hlunsigned, hrnil, hrbool, hrstr, hrfloat, hrunsigned, Bool.or_self, Bool.false_eq_true,
    if_false, numbers, hlnumeric, hrnumeric, Bool.and_self, if_true]
  cases op <;> rfl

/-- An operation on signed words. Which signed types they have does not matter: the
result has the narrowest type that holds it. -/
theorem solve_words {s : Setting} {cl cr : Category} (hl : cl.isSigned = true)
    (hr : cr.isSigned = true) (op : WordOp) (a b : Int64) :
    ∃ w : Int64, w.toInt = op.apply a.toInt b.toInt ∧
      solve s (signedConst cl a) op.binOp (signedConst cr b) =
        (signedConst (.signedOfWidth (Category.signedWidth w)) w,
          if op.divides ∧ b.toInt = 0 then [.divideByZero] else []) := by
  obtain ⟨w, hw, hfold⟩ := foldSigned_word op a b
  refine ⟨w, hw, ?_⟩
  have hvoid : (promoted s (.base cl) (.base cr)).isVoid = false := by
    unfold promoted
    split
    · exact isVoid_signed hr
    · exact isVoid_signed hl
  have harith : arithmetic (signedConst cl a) op.binOp (signedConst cr b)
      (promoted s (.base cl) (.base cr)) =
      (.ofConst (promoted s (.base cl) (.base cr)) (.int w),
        if op.divides ∧ b.toInt = 0 then [.divideByZero] else []) := by
    replace hfold : fold op.binOp (.int a) (.int b) = _ := hfold
    simp only [arithmetic, signedConst, Value.ofConst, Value.ofType, hfold]
  rw [solve, operate_signed hl hr, harith]
  simp only [settle, Value.ofConst, hvoid, signedConst, Value.isConst, Option.isSome_some,
    Bool.not_true, Bool.or_self, Bool.false_eq_true, if_false, narrowest?]

end Operator

/-! ## Trees -/

/-- A tree of integer literals, all signed words, and operators on words. -/
inductive IntTree where
  | leaf (n : UInt64) (h : n.toNat < 2 ^ 63) (span : Span)
  | node (op : WordOp) (left right : IntTree) (span : Span)

namespace IntTree

def expr : IntTree → Expr
  | .leaf n _ span => .literal (.int n) span
  | .node op l r span => .binary op.binOp l.expr r.expr span

/-- The value in two's complement arithmetic of 64 bits. -/
def value : IntTree → Int
  | .leaf n _ _ => n.toNat
  | .node op l r _ => op.apply l.value r.value

/-- The places of the divisions by zero, operands first. -/
def zeroDivisions : IntTree → List Span
  | .leaf _ _ _ => []
  | .node op l r span =>
    l.zeroDivisions ++ r.zeroDivisions ++ if op.divides ∧ r.value = 0 then [span] else []

def height : IntTree → Nat
  | .leaf _ _ _ => 1
  | .node _ l r _ => max l.height r.height + 1

def isNode : IntTree → Bool
  | .leaf _ _ _ => false
  | .node _ _ _ _ => true

end IntTree

namespace Check

open Operator (signedConst)

variable {p : Package} {o : Options} {n : Nat} {c : Context} {s : State} {hint : Option Ty}

/-- What evaluation makes of a tree: its value, of the narrowest type if something was
computed, and a report of each division by zero. -/
structure Folds (t : IntTree) (s : State) (v : Value) (s' : State) : Prop where
  value : ∃ c x, v = signedConst c x ∧ c.isSigned = true ∧ x.toInt = t.value ∧
    (t.isNode = true → c = .signedOfWidth (Category.signedWidth x))
  diags : s'.diags.toList = s.diags.toList ++ t.zeroDivisions.map (⟨.divideByZero, ·⟩)

theorem literal_word {k : UInt64} (hk : k.toNat < 2 ^ 63) :
    literal (.int k) = signedConst .int k.toInt64 ∧ k.toInt64.toInt = k.toNat := by
  refine ⟨if_pos hk, ?_⟩
  rw [← Int64.toInt_toBitVec]
  exact BitVec.toInt_eq_toNat_of_lt (by rw [UInt64.toBitVec_toInt64, UInt64.toNat_toBitVec]; omega)

theorem folds_eval (t : IntTree) (hn : t.height ≤ n) :
    Gives (envAt p o n c) s (eval t.expr hint) (Folds t s) := by
  induction t generalizing n s hint with
  | leaf k hk span =>
    obtain ⟨n, rfl⟩ := Nat.exists_eq_add_of_le' hn
    obtain ⟨hliteral, hvalue⟩ := literal_word hk
    refine .eval (.pure ?_)
    rw [hliteral]
    exact ⟨rfl, ⟨_, _, rfl, rfl, hvalue, fun h => by cases h⟩, (List.append_nil _).symm⟩
  | node op l r span ihl ihr =>
    obtain ⟨n, rfl⟩ := Nat.exists_eq_add_of_le' (Nat.le_trans (Nat.le_add_left 1 _) hn)
    have hheight : max l.height r.height ≤ n := Nat.le_of_succ_le_succ hn
    refine .eval ?_
    refine .bind (ihl (Nat.le_trans (Nat.le_max_left _ _) hheight)) fun lv s1 hl _ => ?_
    refine .bind (ihr (Nat.le_trans (Nat.le_max_right _ _) hheight)) fun rv s2 hr _ => ?_
    obtain ⟨⟨cl, a, rfl, hcl, ha, -⟩, hdiags1⟩ := hl
    obtain ⟨⟨cr, b, rfl, hcr, hb, -⟩, hdiags2⟩ := hr
    obtain ⟨w, hw, hsolve⟩ := Operator.solve_words (s := ⟨p.definitions, o.wordSize⟩) hcl hcr op a b
    have hvoid : ((signedConst cl a).type.isVoid || (signedConst cr b).type.isVoid) = false :=
      Bool.or_eq_false_iff.mpr ⟨Operator.isVoid_signed hcl, Operator.isVoid_signed hcr⟩
    rw [hvoid]
    refine gives_solve hsolve ⟨rfl, ⟨_, w, rfl, ?_, ?_, fun _ => rfl⟩, ?_⟩
    · unfold Category.signedOfWidth
      split <;> rfl
    · rw [hw, ha, hb]
      rfl
    · show Array.toList (s2.diags ++ List.map _ _) = _
      rw [hb, Array.toList_appendList, hdiags2, hdiags1, IntTree.zeroDivisions]
      by_cases hzero : op.divides ∧ r.value = 0 <;> simp [hzero]

/-- Evaluation of a tree of integer literals and operators on words ends, whatever is
declared and whatever the words of the target are. It folds to the value of the tree,
of the narrowest type that holds it if something was computed, and reports the
divisions by zero and nothing else. -/
theorem eval_folds (t : IntTree) (p : Package) (o : Options) (c : Context) (s : State)
    (hint : Option Ty) {n : Nat} (hn : t.height ≤ n) :
    ∃ v s', Check.run p o n c (eval t.expr hint) s = some (v, s') ∧
      (∃ x : Int64, v.constant = some (.int x) ∧ x.toInt = t.value) ∧
      s'.diags.toList = s.diags.toList ++ t.zeroDivisions.map (⟨.divideByZero, ·⟩) ∧
      (t.isNode = true →
        ∃ cat, v.type = .base cat ∧ Category.Narrowest o.wordSize t.value cat) := by
  obtain ⟨v, s', hrun, ⟨cat, x, rfl, -, hx, hcat⟩, hdiags⟩ : Gives (envAt p o n c) s _ _ :=
    folds_eval t hn
  refine ⟨_, s', hrun, ⟨x, rfl, hx⟩, hdiags, fun ht => ⟨cat, rfl, ?_⟩⟩
  rw [hcat ht, ← hx]
  exact Category.narrowest_signedWidth o.wordSize x

/-- `(7 / (2 - 2)) + (200 * 300)` -/
def overZero : IntTree :=
  .node .add
    (.node .div (.leaf 7 (by decide) ⟨1, 2, 0⟩)
      (.node .sub (.leaf 2 (by decide) ⟨6, 7, 0⟩) (.leaf 2 (by decide) ⟨10, 11, 0⟩) ⟨6, 11, 0⟩)
      ⟨1, 12, 0⟩)
    (.node .mul (.leaf 200 (by decide) ⟨17, 20, 0⟩) (.leaf 300 (by decide) ⟨23, 26, 0⟩) ⟨17, 26, 0⟩)
    ⟨0, 27, 0⟩

theorem eval_folds_overZero :
    overZero.height ≤ 4 ∧ overZero.value = 60000 ∧ overZero.zeroDivisions = [⟨1, 12, 0⟩] ∧
      ∃ v s', Check.run {} {} 4 {} (eval overZero.expr none) {} = some (v, s') ∧
        (∃ x : Int64, v.constant = some (.int x) ∧ x.toInt = overZero.value) ∧
        s'.diags.toList = [] ++ overZero.zeroDivisions.map (⟨.divideByZero, ·⟩) ∧
        (overZero.isNode = true →
          ∃ cat, v.type = .base cat ∧ Category.Narrowest .w64 overZero.value cat) := by
  have hheight : overZero.height ≤ 4 := by decide
  exact ⟨hheight, by decide, by decide, eval_folds overZero {} {} {} {} none hheight⟩

end Check

end JaneCheck
