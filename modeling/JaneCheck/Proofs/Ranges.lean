import JaneCheck.Value
import Mathlib.Algebra.Group.Int.Defs
import Mathlib.Algebra.Group.Nat.Defs

/-!
# Ranges of integer categories

A category holds the numbers between its least and its greatest value. The
narrowest category of a word holds it, and every category that holds it is at
least as wide. A number that is cut to the width of a category is held by it.
-/

namespace JaneCheck

namespace Category

/-- Least and greatest value of an integer category. -/
def range (ws : WordSize) (c : Category) : Int × Int :=
  if c.isSigned then (-(Nat.pow 2 (c.width ws - 1) : Nat), (Nat.pow 2 (c.width ws - 1) : Nat) - 1)
  else (0, if c.isUnsigned then (Nat.pow 2 (c.width ws) : Nat) - 1 else 0)

/-- The number lies between the least and the greatest value of the category. -/
def Holds (ws : WordSize) (c : Category) (x : Int) : Prop :=
  (c.range ws).1 ≤ x ∧ x ≤ (c.range ws).2

instance (ws : WordSize) (c : Category) (x : Int) : Decidable (c.Holds ws x) :=
  inferInstanceAs (Decidable (_ ∧ _))

/-- The signed categories of fixed width. -/
def fixedSigned : List Category := [.i8, .i16, .i32, .i64]

/-- A fixed signed category that holds the number and is the narrowest to do so. -/
structure Narrowest (ws : WordSize) (x : Int) (c : Category) : Prop where
  mem : c ∈ fixedSigned
  holds : c.Holds ws x
  least : ∀ c' ∈ fixedSigned, c'.Holds ws x → c.width ws ≤ c'.width ws

variable {ws : WordSize} {x : Int}

theorem holds_i8 : i8.Holds ws x ↔ -128 ≤ x ∧ x ≤ 127 := .rfl

theorem holds_i16 : i16.Holds ws x ↔ -32768 ≤ x ∧ x ≤ 32767 := .rfl

theorem holds_i32 : i32.Holds ws x ↔ -2147483648 ≤ x ∧ x ≤ 2147483647 := .rfl

theorem holds_i64 : i64.Holds ws x ↔ -9223372036854775808 ≤ x ∧ x ≤ 9223372036854775807 := .rfl

theorem narrowest_iff {c : Category} (hc : c ∈ fixedSigned) :
    Narrowest ws x c ↔ c.Holds ws x ∧ (i8.Holds ws x → c.width ws ≤ 8) ∧
      (i16.Holds ws x → c.width ws ≤ 16) ∧ (i32.Holds ws x → c.width ws ≤ 32) ∧
      (i64.Holds ws x → c.width ws ≤ 64) := by
  have hall : (∀ c' ∈ fixedSigned, c'.Holds ws x → c.width ws ≤ c'.width ws) ↔
      (i8.Holds ws x → c.width ws ≤ 8) ∧ (i16.Holds ws x → c.width ws ≤ 16) ∧
        (i32.Holds ws x → c.width ws ≤ 32) ∧ (i64.Holds ws x → c.width ws ≤ 64) := by
    simp only [fixedSigned, List.forall_mem_cons, List.not_mem_nil, false_imp_iff, implies_true,
      and_true]
    rfl
  rw [← hall]
  exact ⟨fun h => ⟨h.holds, h.least⟩, fun h => ⟨hc, h.1, h.2⟩⟩

theorem narrowest_signedWidth (ws : WordSize) (x : Int64) :
    Narrowest ws x.toInt (signedOfWidth (signedWidth x)) := by
  have hlow := x.le_toInt
  have hhigh := x.toInt_lt
  unfold signedWidth
  extract_lets v
  have hmem : ∀ width, signedOfWidth width ∈ fixedSigned := by
    intro width
    unfold signedOfWidth
    split <;> decide
  rw [narrowest_iff (hmem _), holds_i8, holds_i16, holds_i32, holds_i64]
  split
  next h8 =>
    show i8.Holds ws v ∧ (_ → 8 ≤ 8) ∧ (_ → 8 ≤ 16) ∧ (_ → 8 ≤ 32) ∧ (_ → 8 ≤ 64)
    rw [holds_i8]
    omega
  next h8 =>
  split
  next h16 =>
    show i16.Holds ws v ∧ (_ → 16 ≤ 8) ∧ (_ → 16 ≤ 16) ∧ (_ → 16 ≤ 32) ∧ (_ → 16 ≤ 64)
    rw [holds_i16]
    omega
  next h16 =>
  split
  next h32 =>
    show i32.Holds ws v ∧ (_ → 32 ≤ 8) ∧ (_ → 32 ≤ 16) ∧ (_ → 32 ≤ 32) ∧ (_ → 32 ≤ 64)
    rw [holds_i32]
    omega
  next h32 =>
    show i64.Holds ws v ∧ (_ → 64 ≤ 8) ∧ (_ → 64 ≤ 16) ∧ (_ → 64 ≤ 32) ∧ (_ → 64 ≤ 64)
    rw [holds_i64]
    omega

theorem holds_unsignedWidth (ws : WordSize) (x : UInt64) :
    (unsignedOfWidth (unsignedWidth x)).Holds ws x.toNat := by
  have hlt := x.toNat_lt
  unfold unsignedWidth
  extract_lets v
  split
  next h8 =>
    show (0 : Int) ≤ v ∧ (v : Int) ≤ 255
    omega
  next h8 =>
  split
  next h16 =>
    show (0 : Int) ≤ v ∧ (v : Int) ≤ 65535
    omega
  next h16 =>
  split
  next h32 =>
    show (0 : Int) ≤ v ∧ (v : Int) ≤ 4294967295
    omega
  next h32 =>
    show (0 : Int) ≤ v ∧ (v : Int) ≤ 18446744073709551615
    omega

/-! ## Widths -/

section Widths

variable {ws : WordSize} {c : Category} {x : Int}

theorem width_integer (ws : WordSize) (h : c.isInteger = true) :
    c.width ws = 8 ∨ c.width ws = 16 ∨ c.width ws = 32 ∨ c.width ws = 64 := by
  revert h
  cases c <;> cases ws <;> decide

/-- The limits, which are words, are the ends of the range. -/
theorem range_signed (ws : WordSize) (h : c.isSigned = true) :
    c.range ws = (c.minSigned ws, c.maxSigned ws) := by
  revert h
  cases c <;> cases ws <;> decide

theorem range_unsigned (ws : WordSize) (h : c.isUnsigned = true) :
    c.range ws = (0, c.maxUnsigned ws) := by
  revert h
  cases c <;> cases ws <;> decide

theorem holds_signed (h : c.isSigned = true) :
    c.Holds ws x ↔ -2 ^ (c.width ws - 1) ≤ x ∧ x < 2 ^ (c.width ws - 1) := by
  simp only [Holds, range, h, if_true, Nat.pow_eq, Int.natCast_pow,
    Int.cast_ofNat_Int]
  omega

theorem holds_unsigned (h : c.isUnsigned = true) :
    c.Holds ws x ↔ 0 ≤ x ∧ x < 2 ^ c.width ws := by
  have hsigned : c.isSigned = false := by
    revert h
    cases c <;> decide
  simp only [Holds, range, h, hsigned, if_true, Nat.pow_eq, Int.natCast_pow,
    Int.cast_ofNat_Int, Bool.false_eq_true, if_false]
  omega

theorem holds_bmod (h : c.isSigned = true) (x : Int) : c.Holds ws (x.bmod (2 ^ c.width ws)) := by
  rw [holds_signed h]
  have hpos : (0 : Nat) < 2 ^ c.width ws := Nat.two_pow_pos _
  have hlow := Int.le_bmod (x := x) hpos
  have hhigh := Int.bmod_lt (x := x) hpos
  rcases width_integer ws (c := c) (by simp [isInteger, h]) with hw | hw | hw | hw <;>
    rw [hw] at hlow hhigh ⊢ <;> omega

theorem holds_mod (h : c.isUnsigned = true) (n : Nat) :
    c.Holds ws (n % 2 ^ c.width ws : Nat) := by
  rw [holds_unsigned h]
  have hlt := Nat.mod_lt n (Nat.two_pow_pos (c.width ws))
  constructor
  · omega
  · exact_mod_cast hlt

theorem holds_toInt (h : c.isSigned = true) (hw : c.width ws = 64) (x : Int64) :
    c.Holds ws x.toInt := by
  have hlow := x.le_toInt
  have hhigh := x.toInt_lt
  rw [holds_signed h, hw]
  omega

theorem holds_toNat (h : c.isUnsigned = true) (hw : c.width ws = 64) (x : UInt64) :
    c.Holds ws x.toNat := by
  have hlt := x.toNat_lt
  rw [holds_unsigned h, hw]
  omega

end Widths

end Category

end JaneCheck
